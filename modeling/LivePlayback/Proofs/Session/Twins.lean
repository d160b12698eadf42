import LivePlayback.Proofs.Session.Frames

/-!
# Twin sessions

Two sessions of which one has come across more idle frames than the other: metadata, or frames of no
use at all. As long as the surface lets nothing depend on where it was moved to, such twins stay
twins whatever is handled.
-/

namespace LivePlayback
set_option autoImplicit false

variable {σ ρ α : Type}

/-! ## What a surface lets depend on its state -/

/-- A call's effects for someone with a partial view of the surface. -/
def Aftermath.seen (view : σ → ρ) (a : Aftermath σ) : Aftermath ρ :=
  ⟨view a.surface, a.notices, a.stop⟩

namespace Reply

def seen (view : σ → ρ) (r : Reply σ α) : Reply ρ α := ⟨r.toAftermath.seen view, r.answer⟩

variable {view : σ → ρ} {r r' : Reply σ α}

theorem answer_eq_of_seen (h : r.seen view = r'.seen view) : r.answer = r'.answer :=
  (Reply.mk.inj h).2

theorem aftermath_eq_of_seen (h : r.seen view = r'.seen view) :
    r.toAftermath.seen view = r'.toAftermath.seen view :=
  (Reply.mk.inj h).1

end Reply

namespace Surface

/-- What the call does, and answers, depends on what is in view only. -/
def Heeds (view : σ → ρ) (call : σ → Reply σ α) : Prop :=
  ∀ x y, view x = view y → (call x).seen view = (call y).seen view

/-- The call comes to its end and changes nothing in view. -/
def Spares (view : σ → ρ) (call : σ → Reply σ α) : Prop :=
  ∀ x, (call x).answer.isSome = true ∧ view (call x).surface = view x

/-- The calls of a surface depend on a part of it that no seek touches, nor the questions that lead
to one. -/
structure Unswayed (out : Surface σ) (view : σ → ρ) : Prop where
  supports : ∀ mimeType, Heeds view (out.supports · mimeType)
  createSink : ∀ codecs generation, Heeds view (out.createSink · codecs generation)
  append : ∀ generation chunk, Heeds view (out.append · generation chunk)
  release : ∀ generation x y, view x = view y →
    (out.release x generation).seen view = (out.release y generation).seen view
  hidden : Heeds view out.hidden ∧ Spares view out.hidden
  bufferedEnd : Heeds view out.bufferedEnd ∧ Spares view out.bufferedEnd
  seek : ∀ position, Heeds view (out.seek · position) ∧ Spares view (out.seek · position)

end Surface

/-! ## Idle frames -/

/-- A frame with nothing for a sink: metadata, or nothing that can be used. -/
def Content.idle (f : ByteArray) : Bool :=
  match ofFrame f with
  | .error _ | .ok (.metadata _) => true
  | .ok (.codecs _) | .ok (.media _) => false

/-- Entries that idle frames leave, or that count them. -/
def Entry.idle : Entry → Bool
  | .received f => Content.idle f
  | .event (.metadata _) | .metadata _ | .sought _ | .ended _ => true
  | _ => false

/-- The journal without what idle frames leave in it. -/
def Journal.essence (j : Journal) : Journal := j.filter fun e => !e.idle

/-- The counts to which idle frames add nothing. -/
def Totals.essence (t : Totals) : Totals := { t with frames := 0, malformedFrames := 0 }

namespace Supervisor

/-- Two supervisors that differ in nothing but what idle frames leave behind. -/
inductive Twins (view : σ → ρ) (s : Supervisor σ) : Supervisor σ → Prop where
  | mk {x : σ} {totals : Totals} {journal : Journal} (hx : view s.surface = view x)
      (ht : s.totals.essence = totals.essence) (hj : s.journal.essence = journal.essence) :
      Twins view s { s with surface := x, totals, journal }

namespace Twins

variable {view : σ → ρ} {out : Surface σ} {s s' : Supervisor σ} {now : Nat}

theorem refl (s : Supervisor σ) : Twins view s s := .mk rfl rfl rfl

section Fields

variable (h : Twins view s s')

include h

theorem surface : view s.surface = view s'.surface := by
  cases h with
  | mk hx => exact hx

theorem journal : s.journal.essence = s'.journal.essence := by
  cases h with
  | mk _ _ hj => exact hj

theorem totals : s.totals.essence = s'.totals.essence := by
  cases h with
  | mk _ ht => exact ht

theorem connects : s.totals.connects = s'.totals.connects :=
  (Totals.mk.inj h.totals).1

theorem phase : s.phase = s'.phase := by cases h; rfl

theorem state : s.state = s'.state := by cases h; rfl

theorem transport : s.transport = s'.transport := by cases h; rfl

theorem queue : s.queue = s'.queue := by cases h; rfl

theorem generation : s.generation = s'.generation := by cases h; rfl

theorem timer : s.timer = s'.timer := by cases h; rfl

theorem notices : s.notices = s'.notices := by cases h; rfl

theorem config : s.config = s'.config := by cases h; rfl

theorem tracing : s.tracing = s'.tracing := by cases h; rfl

theorem url : s.url = s'.url := by cases h; rfl

theorem stopRequested : s.stopRequested = s'.stopRequested := by cases h; rfl

theorem halted : s.halted = s'.halted := by cases h; rfl

/-! ### Single changes -/

theorem withPhase (phase : Phase) : Twins view { s with phase } { s' with phase } := by
  cases h with
  | mk hx ht hj => exact .mk hx ht hj

theorem withState (state : SessionState) : Twins view { s with state } { s' with state } := by
  cases h with
  | mk hx ht hj => exact .mk hx ht hj

theorem withTransport (transport : Option Nat) :
    Twins view { s with transport } { s' with transport } := by
  cases h with
  | mk hx ht hj => exact .mk hx ht hj

theorem withQueue (queue : Option AppendQueue) : Twins view { s with queue } { s' with queue } := by
  cases h with
  | mk hx ht hj => exact .mk hx ht hj

theorem withTimer (timer : ReconnectTimer) : Twins view { s with timer } { s' with timer } := by
  cases h with
  | mk hx ht hj => exact .mk hx ht hj

theorem withNotices (notices : List Notice) :
    Twins view { s with notices } { s' with notices } := by
  cases h with
  | mk hx ht hj => exact .mk hx ht hj

theorem withGeneration (generation : Nat) :
    Twins view { s with generation } { s' with generation } := by
  cases h with
  | mk hx ht hj => exact .mk hx ht hj

theorem withSurface {x x' : σ} (hx : view x = view x') :
    Twins view { s with surface := x } { s' with surface := x' } := by
  cases h with
  | mk _ ht hj => exact .mk hx ht hj

theorem withTotals {totals totals' : Totals} (ht : totals.essence = totals'.essence) :
    Twins view { s with totals } { s' with totals := totals' } := by
  cases h with
  | mk hx _ hj => exact .mk hx ht hj

theorem requestStop : Twins view s.requestStop s'.requestStop := by
  cases h with
  | mk hx ht hj => exact .mk hx ht hj

theorem stopIf (stop : Bool) : Twins view (s.stopIf stop) (s'.stopIf stop) := by
  cases stop with
  | false => exact h
  | true => exact h.requestStop

theorem note (e : Entry) : Twins view (s.note e) (s'.note e) := by
  cases h with
  | mk hx ht hj =>
    refine .mk hx ht ?_
    simp only [Supervisor.note, Journal.essence, List.filter_cons] at hj ⊢
    rw [hj]

theorem noteIdle {e e' : Entry} (he : e.idle = true) (he' : e'.idle = true) :
    Twins view (s.note e) (s'.note e') := by
  cases h with
  | mk hx ht hj =>
    refine .mk hx ht ?_
    simp only [Supervisor.note, Journal.essence, List.filter_cons, he, he'] at hj ⊢
    exact hj

theorem emit (e : Event) : Twins view (s.emit e) (s'.emit e) := h.note _

theorem absorb {a a' : Aftermath σ} (ha : a.seen view = a'.seen view) :
    Twins view (s.absorb a) (s'.absorb a') := by
  obtain ⟨x, notices, stop⟩ := a
  obtain ⟨x', notices', stop'⟩ := a'
  obtain ⟨hx, rfl, rfl⟩ := Aftermath.mk.inj ha
  cases h with
  | mk _ ht hj =>
    refine .mk hx ht ?_
    simp only [Supervisor.absorb, Journal.essence, List.filter_append] at hj ⊢
    rw [hj]

end Fields

/-! ### Parts of handlers -/

theorem setState (h : Twins view s s') (state : SessionState) :
    Twins view (s.setState state) (s'.setState state) := by
  unfold Supervisor.setState
  rw [h.state]
  split
  · exact h
  · exact (h.withState state).note _

theorem dropTransport (h : Twins view s s') : Twins view s.dropTransport s'.dropTransport := by
  unfold Supervisor.dropTransport
  rw [h.transport]
  split
  · exact h
  · exact (h.withTransport none).note _

theorem abandonConnect (h : Twins view s s') :
    Twins view s.abandonConnect s'.abandonConnect := by
  unfold Supervisor.abandonConnect
  rw [← h.phase, ← h.connects]
  split
  · exact h.note _
  · exact h

theorem opened (h : Twins view s s') : Twins view s.opened s'.opened := by
  have hopened := (((h.withPhase .waiting).withTransport (some s.totals.connects)).note
    (.opened s.totals.connects)).setState .opened
  unfold Supervisor.opened
  rw [← h.connects]
  cases h with
  | mk => exact hopened.emit _

theorem install (h : Twins view s s') (codecs : Codecs) :
    Twins view (s.install codecs) (s'.install codecs) := by
  have hinstalled := (h.withQueue (some (.create codecs s.generation))).note
    (.created s.generation codecs)
  cases h with
  | mk => exact hinstalled.emit _

variable (hout : out.Unswayed view)

include hout

theorem destroyQueue (h : Twins view s s') :
    Twins view (s.destroyQueue out) (s'.destroyQueue out) := by
  unfold Supervisor.destroyQueue AppendQueue.destroy
  rw [← h.queue]
  cases s.queue with
  | none => exact h
  | some q =>
    cases hs : q.state with
    | destroyed =>
      simp only [hs]
      exact h.withQueue none
    | idle | appending =>
      simp only [hs]
      have hreleased := (h.withQueue none).note (.released q.generation)
      exact (hreleased.absorb (hout.release q.generation _ _ h.surface)).note _

theorem crash (h : Twins view s s') : Twins view (s.crash out) (s'.crash out) := by
  unfold Supervisor.crash
  rw [h.timer]
  exact ((h.dropTransport.destroyQueue hout).withPhase .crashed).withTimer _

theorem call {r r' : Reply σ α} {andThen andThen' : Supervisor σ → α → Supervisor σ}
    (h : Twins view s s') (hr : r.seen view = r'.seen view)
    (hk : ∀ s₁ s₁' a, Twins view s₁ s₁' → Twins view (andThen s₁ a) (andThen' s₁' a)) :
    Twins view (s.call out r andThen) (s'.call out r' andThen') := by
  have hanswer : r.answer = r'.answer := Reply.answer_eq_of_seen hr
  have habsorbed : Twins view (s.absorb r.toAftermath) (s'.absorb r'.toAftermath) :=
    h.absorb (Reply.aftermath_eq_of_seen hr)
  unfold Supervisor.call
  rw [← hanswer]
  cases r.answer with
  | some a => exact hk _ _ a habsorbed
  | none => exact habsorbed.crash hout

/-- Queues at work with twins hand over the same chunks. -/
theorem offer (chunks : List ByteArray) (q : AppendQueue) (g : Nat) (h : Twins view s s') :
    Twins view (keepQueue out (q.offer (sink out g) s chunks))
      (keepQueue out (q.offer (sink out g) s' chunks)) := by
  -- Both sinks give the same answers, so both queues come to rest at the same chunk.
  induction chunks generalizing q s s' with
  | nil => exact h.withQueue _
  | cons chunk rest ih =>
    have hr := hout.append g chunk _ _ h.surface
    have hanswer : (out.append s.surface g chunk).answer = (out.append s'.surface g chunk).answer :=
      Reply.answer_eq_of_seen hr
    have hafter := Reply.aftermath_eq_of_seen hr
    have hoffered (accepted : Bool) :
        Twins view (s.offerTo out g chunk accepted) (s'.offerTo out g chunk accepted) :=
      (h.note _).absorb hafter
    cases ha : (out.append s.surface g chunk).answer with
    | none =>
      rw [Plays.offer_crashed ha, Plays.offer_crashed (hanswer ▸ ha)]
      exact ((h.absorb hafter).withQueue _).crash hout
    | some refusal =>
      cases refusal with
      | none =>
        rw [Plays.offer_accepted ha, Plays.offer_accepted (hanswer ▸ ha)]
        exact (hoffered true).withQueue _
      | some why =>
        rw [Plays.offer_refused ha, Plays.offer_refused (hanswer ▸ ha)]
        exact ih _ (hoffered false)

theorem enqueue (q : AppendQueue) (chunk : ByteArray) (h : Twins view s s') :
    Twins view (keepQueue out (q.enqueue (sink out q.generation) chunk s))
      (keepQueue out (q.enqueue (sink out q.generation) chunk s')) := by
  unfold AppendQueue.enqueue
  cases q.state with
  | idle => exact offer hout _ q q.generation h
  | appending | destroyed => exact h.withQueue _

theorem finishAppend (q : AppendQueue) (rejection : Option String) (h : Twins view s s') :
    Twins view (keepQueue out (q.finish (sink out q.generation) rejection s))
      (keepQueue out (q.finish (sink out q.generation) rejection s')) := by
  unfold AppendQueue.finish
  cases q.state with
  | appending => exact offer hout q.pending _ q.generation h
  | idle | destroyed => exact h.withQueue _

theorem finish (h : Twins view s s') : Twins view (s.finish out) (s'.finish out) := by
  have hdestroyed := (h.withTimer s.timer.cancel).destroyQueue hout
  unfold Supervisor.finish
  rw [← h.timer]
  generalize { s with timer := s.timer.cancel }.destroyQueue out = s₁ at hdestroyed ⊢
  generalize { s' with timer := s.timer.cancel }.destroyQueue out = s₁' at hdestroyed ⊢
  simp only [← hdestroyed.state]
  split
  · exact (hdestroyed.withPhase .ended).noteIdle rfl rfl
  · exact (((hdestroyed.setState .destroyed).emit .stopped).withPhase .ended).noteIdle rfl rfl

theorem teardown (h : Twins view s s') :
    Twins view (s.teardown out now) (s'.teardown out now) := by
  have hdestroyed := (h.withTimer s.timer.cancel).destroyQueue hout
  unfold Supervisor.teardown
  rw [← h.timer]
  generalize { s with timer := s.timer.cancel }.destroyQueue out = s₁ at hdestroyed ⊢
  generalize { s' with timer := s.timer.cancel }.destroyQueue out = s₁' at hdestroyed ⊢
  have hclosing (deadline attempt : Nat) :=
    (hdestroyed.withPhase (.closing deadline)).note (.closing attempt)
  have hfinished := hdestroyed.finish hout
  cases hdestroyed with
  | mk =>
    simp only
    split
    · exact hfinished
    · exact hclosing _ _

theorem connect (h : Twins view s s') : Twins view (s.connect out now) (s'.connect out now) := by
  have hstate := h.setState .connecting
  unfold Supervisor.connect
  rw [← h.halted]
  split
  · exact h.teardown hout
  · generalize s.setState .connecting = s₁ at hstate ⊢
    generalize s'.setState .connecting = s₁' at hstate ⊢
    simp only [← hstate.connects]
    refine ((hstate.withPhase .connecting).withTotals ?_).note _
    have ht := Totals.mk.inj hstate.totals
    simp only [Totals.essence, ht]

theorem lose (why : Option Fault) (h : Twins view s s') :
    Twins view (s.lose out now why) (s'.lose out now why) := by
  have hlost := (h.dropTransport.destroyQueue hout).emit (.disconnected (why.map Fault.message))
  unfold Supervisor.lose
  simp only
  generalize (s.dropTransport.destroyQueue out).emit _ = s₁ at hlost ⊢
  generalize (s'.dropTransport.destroyQueue out).emit _ = s₁' at hlost ⊢
  rw [← hlost.halted, ← hlost.timer]
  split
  · exact hlost.finish hout
  · exact ((((hlost.withPhase .waiting).withTimer _).note _).setState .reconnectPending).emit _

/-! ### Frames and notices -/

theorem announce (codecs : Codecs) (h : Twins view s s') :
    Twins view (s.announce out codecs) (s'.announce out codecs) := by
  have hdestroyed := h.destroyQueue hout
  unfold Supervisor.announce
  simp only [← hdestroyed.generation]
  exact (hdestroyed.withGeneration _).note _

theorem installSink (codecs : Codecs) (h : Twins view s s') :
    Twins view (s.installSink out codecs) (s'.installSink out codecs) := by
  have hannounced := h.announce hout codecs
  unfold Supervisor.installSink
  refine hannounced.call hout (hout.supports _ _ _ hannounced.surface) fun s₁ s₁' supported h => ?_
  rw [← h.generation]
  split
  · exact h.emit _
  · refine h.call hout (hout.createSink _ _ _ _ h.surface) fun s₂ s₂' refusal h => ?_
    cases refusal with
    | some why => exact h.emit _
    | none => exact h.install codecs

theorem publishMetadata (m : Metadata) (h : Twins view s s') :
    Twins view (s.publishMetadata out m) (s'.publishMetadata out m) := by
  unfold Supervisor.publishMetadata
  rw [← h.tracing]
  split
  · exact h.crash hout
  · exact (h.note _).emit _

theorem handleChunk (chunk : ByteArray) (h : Twins view s s') :
    Twins view (s.handleChunk out chunk) (s'.handleChunk out chunk) := by
  have ht := Totals.mk.inj h.totals
  cases hq : s.queue with
  | none =>
    rw [handleChunk_of_none hq, handleChunk_of_none (h.queue ▸ hq)]
    refine h.withTotals ?_
    simp only [Totals.essence, ht]
  | some q =>
    rw [handleChunk_of_some hq, handleChunk_of_some (h.queue ▸ hq)]
    refine enqueue hout q chunk (h.withTotals ?_)
    simp only [Totals.essence, ht]

theorem handleContent (content : Except Fault Content) (h : Twins view s s') :
    Twins view (s.handleContent out content) (s'.handleContent out content) := by
  cases content with
  | error why => exact h.withTotals h.totals
  | ok content =>
    cases content with
    | codecs codecs => exact h.installSink hout codecs
    | metadata m => exact h.publishMetadata hout m
    | media chunk => exact h.handleChunk hout chunk

theorem catchUp (h : Twins view s s') : Twins view (s.catchUp out) (s'.catchUp out) := by
  unfold Supervisor.catchUp
  rw [← h.config]
  split
  · exact h
  · refine h.call hout (hout.hidden.1 _ _ h.surface) fun s₁ s₁' hidden h => ?_
    split
    · exact h
    · refine h.call hout (hout.bufferedEnd.1 _ _ h.surface) fun s₂ s₂' bufferedEnd h => ?_
      cases bufferedEnd with
      | none => exact h
      | some bufferedEnd =>
        simp only [← h.config]
        exact h.call hout ((hout.seek _).1 _ _ h.surface) fun s₃ s₃' _ h => h.note _

theorem handleFrame (f : ByteArray) (h : Twins view s s') :
    Twins view (s.handleFrame out f) (s'.handleFrame out f) := by
  have hregistered : Twins view (s.register f) (s'.register f) := by
    unfold register
    refine (h.withTotals ?_).note _
    exact h.totals
  have hcontent := hregistered.handleContent hout (Content.ofFrame f)
  unfold Supervisor.handleFrame
  simp only [← h.halted, ← hcontent.phase]
  split
  · exact h
  · split
    · exact hcontent
    · exact hcontent.catchUp hout

theorem handleNotice (n : Notice) (h : Twins view s s') :
    Twins view (s.handleNotice out n) (s'.handleNotice out n) := by
  unfold Supervisor.handleNotice
  rw [← h.halted, ← h.queue]
  split
  · exact h
  · cases s.queue with
    | none => exact h
    | some q =>
      simp only
      split
      · refine finishAppend hout q n.rejection ?_
        unfold noteFinished
        split
        · exact h.note _
        · exact h
      · exact h

/-- Twins stay twins, whatever they handle. -/
theorem handle (i : Input) (h : Twins view s s') :
    Twins view (s.handle out now i) (s'.handle out now i) := by
  cases i with
  | begin => exact h.connect hout
  | stop =>
    exact h.abandonConnect.teardown hout
  | reconnect =>
    rw [Supervisor.handle, Supervisor.handle, ← h.timer]
    exact ((h.withTimer _).note _).connect hout
  | notice n =>
    rw [Supervisor.handle, Supervisor.handle, ← h.notices]
    exact (h.withNotices _).handleNotice hout n
  | connected => exact h.opened
  | connectFailed why =>
    rw [Supervisor.handle, Supervisor.handle, ← h.connects]
    exact (h.note _).lose hout (some why)
  | received r =>
    cases r with
    | frame f => exact h.handleFrame hout f
    | closed => exact h.lose hout none
    | failed why => exact h.lose hout (some why)
  | closed => exact h.dropTransport.finish hout
  | broken => exact h.crash hout

end Twins

end Supervisor

end LivePlayback
