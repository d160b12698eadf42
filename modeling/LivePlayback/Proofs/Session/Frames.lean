import LivePlayback.Console
import LivePlayback.Proofs.Session.Passages

/-!
# Frames that come in

Whatever a frame carries, it is counted and handled, and the next one after it. A session goes down
over a frame only if a call of its surface breaks down, or if the details of the frame are put on
record and the total of its observers leaves 64 bits.
-/

namespace LivePlayback
set_option autoImplicit false

open Supervisor

variable {σ : Type}

/-- Every call comes to its end. -/
structure Surface.Sturdy (out : Surface σ) : Prop where
  supports : ∀ x mimeType, (out.supports x mimeType).answer.isSome = true
  createSink : ∀ x codecs generation, (out.createSink x codecs generation).answer.isSome = true
  append : ∀ x generation chunk, (out.append x generation chunk).answer.isSome = true
  hidden : ∀ x, (out.hidden x).answer.isSome = true
  bufferedEnd : ∀ x, (out.bufferedEnd x).answer.isSome = true
  seek : ∀ x position, (out.seek x position).answer.isSome = true

namespace Content

/-- A frame that is of no use. -/
def malformed (f : ByteArray) : Bool :=
  match ofFrame f with
  | .error _ => true
  | .ok _ => false

/-- A frame whose observers cannot be added up. -/
def overtaxing (f : ByteArray) : Bool :=
  match ofFrame f with
  | .ok (.metadata m) => m.observerTotal?.isNone
  | _ => false

/-- How many events answer a frame. -/
def answers : Except Fault Content → Nat
  | .ok (.codecs _) | .ok (.metadata _) => 1
  | _ => 0

end Content

/-- The counts once a frame was handled, by what it carries and whether there is a queue. -/
def Totals.receive (t : Totals) (queued : Bool) : Except Fault Content → Totals
  | .ok (.codecs _) | .ok (.metadata _) => { t with frames := t.frames + 1 }
  | .ok (.media _) =>
    if queued then { t with frames := t.frames + 1, chunks := t.chunks + 1 }
    else { t with frames := t.frames + 1, droppedChunks := t.droppedChunks + 1 }
  | .error _ => { t with frames := t.frames + 1, malformedFrames := t.malformedFrames + 1 }

namespace Supervisor

/-- A session goes on as it was and tells these events meanwhile. -/
structure Stays (s s' : Supervisor σ) (told : List Event) : Prop where
  abreast : Abreast s s'
  tracing : s'.tracing = s.tracing
  totals : s'.totals = s.totals
  events : s'.journal.events = s.journal.events ++ told

namespace Stays

variable {out : Surface σ} {s s₁ s₂ : Supervisor σ} {told told' : List Event}

theorem of_tells (h : Abreast s s₁) (h' : Tells s s₁ []) (ht : s₁.totals = s.totals) :
    Stays s s₁ [] :=
  ⟨h, h'.tracing, ht, h'.events⟩

theorem refl (s : Supervisor σ) : Stays s s [] := of_tells (.refl s) (.refl s) rfl

theorem trans (h : Stays s s₁ told) (h' : Stays s₁ s₂ told') : Stays s s₂ (told ++ told') :=
  ⟨h.abreast.trans h'.abreast, h'.tracing.trans h.tracing, h'.totals.trans h.totals,
    by rw [h'.events, h.events, List.append_assoc]⟩

theorem emit (e : Event) : Stays s (s.emit e) [e] :=
  ⟨.note s _, rfl, rfl, Journal.events_append [.event e] s.journal⟩

theorem aside {e : Entry} (he : e.milestone = false) : Stays s (s.note e) [] :=
  of_tells (.note s e) (.aside he) rfl

theorem absorb (s : Supervisor σ) (a : Aftermath σ) : Stays s (s.absorb a) [] :=
  of_tells (.absorb s a) (.absorb s a) rfl

theorem withQueue (s : Supervisor σ) (queue : Option AppendQueue) :
    Stays s { s with queue } [] :=
  of_tells (.withQueue s queue) ⟨rfl, rfl, rfl, rfl, rfl, rfl⟩ rfl

theorem takeNotices (s : Supervisor σ) (notices : List Notice) : Stays s { s with notices } [] :=
  of_tells ⟨rfl, rfl, rfl, rfl, rfl, id⟩ ⟨rfl, rfl, rfl, rfl, rfl, rfl⟩ rfl

theorem offerTo (generation : Nat) (chunk : ByteArray) (accepted : Bool) (s : Supervisor σ) :
    Stays s (s.offerTo out generation chunk accepted) [] :=
  of_tells (.offerTo _ _ _ s) (.offerTo _ _ _ s) rfl

theorem destroyQueue (out : Surface σ) (s : Supervisor σ) : Stays s (s.destroyQueue out) [] := by
  refine of_tells (.destroyQueue out s) (.destroyQueue out s) ?_
  rcases destroyQueue_cases out s with h | ⟨q, _, h⟩ <;> rw [h]
  rfl

theorem announce (out : Surface σ) (codecs : Codecs) (s : Supervisor σ) :
    Stays s (s.announce out codecs) [] := by
  have hdestroy := destroyQueue out s
  have hnumbered : Stays (s.destroyQueue out)
      { s.destroyQueue out with generation := (s.destroyQueue out).generation + 1 } [] :=
    of_tells ⟨rfl, rfl, rfl, rfl, rfl, id⟩ ⟨rfl, rfl, rfl, rfl, rfl, rfl⟩ rfl
  exact (hdestroy.trans hnumbered).trans (aside rfl)

theorem install (codecs : Codecs) (s : Supervisor σ) :
    Stays s (s.install codecs) [.codecChanged codecs] := by
  have hqueue := withQueue s (some (.create codecs s.generation))
  exact (hqueue.trans (aside (e := .created s.generation codecs) rfl)).trans (emit _)

end Stays

/-- What comes of catching up with the live edge. -/
inductive Nears (out : Surface σ) (s : Supervisor σ) : Supervisor σ → Prop where
  | hears {s' : Supervisor σ} (h : Hears out s s') : Nears out s s'
  | sought {s' : Supervisor σ} (h : Hears out s s') (target : Float) :
      Nears out s (s'.note (.sought target))

namespace Nears

variable {out : Surface σ} {s s' : Supervisor σ}

theorem hears_stays (h : Hears out s s') : Stays s s' [] := by
  induction h with
  | refl => exact .refl s
  | call _ _ ih => exact ih.trans (.absorb _ _)

theorem stays (h : Nears out s s') : Stays s s' [] := by
  cases h with
  | hears h => exact hears_stays h
  | sought h => exact (hears_stays h).trans (.aside rfl)

theorem queue (h : Nears out s s') : s'.queue = s.queue := by
  cases h with
  | hears h => exact h.queue
  | sought h => exact h.queue

theorem generation (h : Nears out s s') : s'.generation = s.generation := by
  cases h with
  | hears h => exact h.generation
  | sought h => exact h.generation

theorem journal (h : Nears out s s') : ∃ later : Journal, s'.journal = later ++ s.journal ∧
    ∀ e ∈ later, (∃ g, e = .notified g) ∨ ∃ target, e = .sought target := by
  have hnotified (notices : List Notice) : ∀ e ∈ Journal.ofNotices notices,
      (∃ g, e = .notified g) ∨ ∃ target, e = .sought target := by
    intro e he
    obtain ⟨n, _, rfl⟩ := Journal.mem_ofNotices_iff.mp he
    exact .inl ⟨_, rfl⟩
  cases h with
  | hears h =>
    obtain ⟨notices, _, hj⟩ := h.heard
    exact ⟨_, hj, hnotified notices⟩
  | sought h target =>
    obtain ⟨notices, _, hj⟩ := h.heard
    refine ⟨.sought target :: Journal.ofNotices notices, by rw [note, hj]; rfl, fun e he => ?_⟩
    rcases List.mem_cons.mp he with rfl | he
    · exact .inr ⟨target, rfl⟩
    · exact hnotified notices e he

end Nears

/-- How a part of a handler ends: well, or with the session down for a reason. -/
inductive Ends (why : Prop) (totals : Totals) (P : Supervisor σ → Prop) (s : Supervisor σ) :
    Prop where
  | well (h : P s)
  | down (hwhy : why) (hp : s.phase = .crashed) (ht : s.totals = totals)

theorem crash_totals (out : Surface σ) (s : Supervisor σ) : (s.crash out).totals = s.totals := by
  have hdestroy := (Stays.destroyQueue out s.dropTransport).totals
  have hdrop : s.dropTransport.totals = s.totals := by
    unfold dropTransport
    split <;> rfl
  exact hdestroy.trans hdrop

namespace Ends

variable {out : Surface σ} {s s' : Supervisor σ} {why why' : Prop} {totals : Totals}
  {P P' : Supervisor σ → Prop}

theorem mono (h : Ends why totals P s) (hwhy : why → why') (hP : P s → P' s) :
    Ends why' totals P' s := by
  cases h with
  | well h => exact .well (hP h)
  | down hw hp ht => exact .down (hwhy hw) hp ht

theorem crash (hwhy : why) (ht : s.totals = totals) : Ends why totals P (s.crash out) :=
  .down hwhy rfl ((crash_totals out s).trans ht)

/-- A call goes on with its answer, unless it does not come to its end. -/
theorem call {α : Type} {r : Reply σ α} {andThen : Supervisor σ → α → Supervisor σ}
    (hr : out.Sturdy → r.answer.isSome = true) (ht : s.totals = totals)
    (hk : ∀ a, Ends (¬ out.Sturdy) totals P (andThen (s.absorb r.toAftermath) a)) :
    Ends (¬ out.Sturdy) totals P (s.call out r andThen) := by
  unfold Supervisor.call
  split
  · exact hk _
  · rename_i hnone
    refine crash (fun hout => ?_) ht
    simp [hnone] at hr
    exact hr hout

/-- What is pending is offered, and nobody else takes notice. -/
theorem offer (out : Surface σ) (chunks : List ByteArray) (q : AppendQueue) (s : Supervisor σ) :
    Ends (¬ out.Sturdy) s.totals (Stays s · [])
      (keepQueue out (q.offer (sink out q.generation) s chunks)) := by
  induction chunks generalizing q s with
  | nil => exact .well (.withQueue s _)
  | cons chunk rest ih =>
    cases ha : (out.append s.surface q.generation chunk).answer with
    | none =>
      rw [Plays.offer_crashed ha]
      refine crash (fun hout => ?_) rfl
      have := hout.append s.surface q.generation chunk
      simp [ha] at this
    | some refusal =>
      cases refusal with
      | none =>
        rw [Plays.offer_accepted ha]
        exact .well ((Stays.offerTo _ _ _ s).trans (.withQueue _ _))
      | some why =>
        -- A chunk that is refused is counted, and the next one is offered.
        rw [Plays.offer_refused ha]
        have hoffered : Stays s (s.offerTo out q.generation chunk false) [] := .offerTo _ _ _ s
        have hrest := ih { q with rejected := q.rejected + 1 }
          (s.offerTo out q.generation chunk false)
        exact hrest.mono id fun h => hoffered.trans h

theorem enqueue (out : Surface σ) (q : AppendQueue) (chunk : ByteArray) (s : Supervisor σ) :
    Ends (¬ out.Sturdy) s.totals (Stays s · [])
      (keepQueue out (q.enqueue (sink out q.generation) chunk s)) := by
  cases hs : q.state with
  | idle =>
    rw [AppendQueue.enqueue_of_idle hs]
    exact offer out _ q s
  | appending =>
    rw [AppendQueue.enqueue_of_appending hs]
    exact .well (.withQueue s _)
  | destroyed =>
    simp only [AppendQueue.enqueue, hs]
    exact .well (.withQueue s _)

theorem finish (out : Surface σ) (q : AppendQueue) (rejection : Option String)
    (s : Supervisor σ) :
    Ends (¬ out.Sturdy) s.totals (Stays s · [])
      (keepQueue out (q.finish (sink out q.generation) rejection s)) := by
  cases hs : q.state with
  | appending =>
    rw [AppendQueue.finish_of_appending hs]
    exact offer out q.pending
      { q with rejected := if rejection.isSome then q.rejected + 1 else q.rejected } s
  | idle | destroyed =>
    simp only [AppendQueue.finish, hs]
    exact .well (.withQueue s _)

theorem notice (out : Surface σ) (n : Notice) (s : Supervisor σ) :
    Ends (¬ out.Sturdy) s.totals (Stays s · []) (s.handleNotice out n) := by
  unfold handleNotice
  split
  · exact .well (.refl s)
  · split
    · exact .well (.refl s)
    · rename_i q _
      split
      · have hnoted : Stays s (s.noteFinished q n) [] := by
          unfold noteFinished
          split
          · exact .aside rfl
          · exact .refl s
        have hfinish := finish out q n.rejection (s.noteFinished q n)
        rw [hnoted.totals] at hfinish
        exact hfinish.mono id fun h => hnoted.trans h
      · exact .well (.refl s)

/-- An announcement is answered by one event. -/
theorem installSink (out : Surface σ) (codecs : Codecs) (s : Supervisor σ) :
    Ends (¬ out.Sturdy) s.totals (fun s' => ∃ e : Event, e.isAnswer = true ∧ Stays s s' [e])
      (s.installSink out codecs) := by
  have hasked : Stays s (s.announce out codecs) [] := .announce out codecs s
  have hdecline {s' : Supervisor σ} (why : Fault) (h : Stays s s' []) :
      Ends (¬ out.Sturdy) s.totals (fun s' => ∃ e : Event, e.isAnswer = true ∧ Stays s s' [e])
        (s'.reportUnsupported codecs why) :=
    .well ⟨.codecUnsupported codecs why.message, rfl, h.trans (.emit _)⟩
  unfold Supervisor.installSink
  refine call (fun hout => hout.supports _ _) hasked.totals fun supported => ?_
  have hanswered := hasked.trans (.absorb _ (out.supports (s.announce out codecs).surface
    codecs.mimeType).toAftermath)
  generalize (s.announce out codecs).absorb _ = s₁ at hanswered ⊢
  split
  · exact hdecline _ hanswered
  · refine call (fun hout => hout.createSink _ _ _) hanswered.totals fun refusal => ?_
    have hcreated := hanswered.trans (.absorb _ (out.createSink s₁.surface codecs
      s₁.generation).toAftermath)
    cases refusal with
    | some why => exact hdecline why hcreated
    | none => exact .well ⟨.codecChanged codecs, rfl, hcreated.trans (.install codecs _)⟩

/-- The live edge is looked for, and perhaps sought. -/
theorem catchUp (out : Surface σ) (s : Supervisor σ) :
    Ends (¬ out.Sturdy) s.totals (Nears out s) (s.catchUp out) := by
  unfold Supervisor.catchUp
  split
  · exact .well (.hears (.refl s))
  · have h₁ := Hears.call (.refl s) (Inquiry.hidden : Inquiry out s.surface _)
    refine call (fun hout => hout.hidden _) rfl fun hidden => ?_
    split
    · exact .well (.hears h₁)
    · have h₂ := Hears.call h₁ .bufferedEnd
      refine call (fun hout => hout.bufferedEnd _) rfl fun bufferedEnd => ?_
      cases bufferedEnd with
      | none => exact .well (.hears h₂)
      | some bufferedEnd =>
        simp only
        generalize liveEdge _ bufferedEnd = target
        have h₃ := Hears.call h₂ (.seek target)
        refine call (fun hout => hout.seek _ _) rfl fun _ => ?_
        exact .well (.sought h₃ target)

end Ends

theorem handleChunk_of_none {out : Surface σ} {s : Supervisor σ} {chunk : ByteArray}
    (h : s.queue = none) : s.handleChunk out chunk =
      { s with totals := { s.totals with droppedChunks := s.totals.droppedChunks + 1 } } := by
  unfold handleChunk
  split
  · rfl
  · rename_i hq
    cases h.symm.trans hq

theorem handleChunk_of_some {out : Surface σ} {s : Supervisor σ} {q : AppendQueue}
    {chunk : ByteArray} (h : s.queue = some q) : s.handleChunk out chunk =
      keepQueue out (q.enqueue (sink out q.generation) chunk
        { s with totals := { s.totals with chunks := s.totals.chunks + 1 } }) := by
  unfold handleChunk
  split
  · rename_i hq
    cases h.symm.trans hq
  · rename_i hq
    cases h.symm.trans hq
    rfl

/-- The details of a frame are put on record, and cannot be. -/
def Withholds (s : Supervisor σ) (f : ByteArray) : Prop :=
  s.tracing = true ∧ Content.overtaxing f = true

/-- A frame is counted and answered, and the session goes on. -/
structure Receives (s : Supervisor σ) (f : ByteArray) (s' : Supervisor σ) : Prop where
  kept : ¬ s.Withholds f
  answered : ∃ told : List Event, told.length = Content.answers (Content.ofFrame f) ∧
    (∀ e ∈ told, e.isAnswer = true) ∧
    Stays { s with totals := s.totals.receive s.queue.isSome (Content.ofFrame f) } s' told

namespace Receives

variable {out : Surface σ} {s s₁ s' : Supervisor σ} {f : ByteArray}

theorem trans (h : Receives s f s₁) (h' : Stays s₁ s' []) : Receives s f s' := by
  obtain ⟨hkept, told, hlength, hanswer, hstays⟩ := h
  refine ⟨hkept, told, hlength, hanswer, ?_⟩
  have hboth := hstays.trans h'
  rwa [List.append_nil] at hboth

theorem content (out : Surface σ) (f : ByteArray) (s : Supervisor σ) :
    Ends (¬ out.Sturdy ∨ s.Withholds f) (s.totals.receive s.queue.isSome (Content.ofFrame f))
      (Receives s f) ((s.register f).handleContent out (Content.ofFrame f)) := by
  have hsame (totals : Totals) :
      Stays { s with totals } { s.register f with totals } [] :=
    .of_tells ⟨rfl, rfl, rfl, rfl, rfl, id⟩ ⟨rfl, rfl, rfl, rfl, rfl, rfl⟩ rfl
  cases hf : Content.ofFrame f with
  | error why =>
    refine .well ⟨?_, [], ?_, nofun, ?_⟩
    · simp [Withholds, Content.overtaxing, hf]
    · simp [hf, Content.answers]
    · rw [hf]
      exact hsame _
  | ok content =>
    cases content with
    | codecs codecs =>
      have hinstall := Ends.installSink out codecs (s.register f)
      refine hinstall.mono .inl fun ⟨e, he, h⟩ => ⟨?_, [e], ?_, by simpa using he, ?_⟩
      · simp [Withholds, Content.overtaxing, hf]
      · simp [hf, Content.answers]
      · rw [hf]
        exact (hsame _).trans h
    | metadata m =>
      simp only [handleContent, publishMetadata]
      split
      · rename_i h
        obtain ⟨ht, hm⟩ := Bool.and_eq_true_iff.mp h
        exact .crash (.inr ⟨ht, by simpa [Content.overtaxing, hf] using hm⟩) rfl
      · rename_i h
        refine .well ⟨?_, [.metadata m], ?_, by simp [Event.isAnswer], ?_⟩
        · rintro ⟨ht, hm⟩
          apply h
          simp only [Content.overtaxing, hf] at hm
          simpa using ⟨ht, by simpa using hm⟩
        · simp [hf, Content.answers]
        · rw [hf]
          exact ((hsame _).trans (.aside (e := .metadata m) rfl)).trans (.emit _)
    | media chunk =>
      have hreceives {s' : Supervisor σ} (queued : Bool) (hq : s.queue.isSome = queued)
          (h : Stays { s with totals := s.totals.receive queued (.ok (.media chunk)) } s' []) :
          Receives s f s' := by
        refine ⟨?_, [], ?_, nofun, ?_⟩
        · simp [Withholds, Content.overtaxing, hf]
        · simp [hf, Content.answers]
        · rwa [hf, hq]
      rw [handleContent]
      cases hq : s.queue with
      | none =>
        have hstray : (s.register f).handleChunk out chunk = _ := handleChunk_of_none hq
        rw [hstray]
        exact .well (hreceives false (by rw [hq]; rfl) (hsame _))
      | some q =>
        have hchunk : (s.register f).handleChunk out chunk = _ := handleChunk_of_some hq
        rw [hchunk]
        have hcounted := hsame (s.totals.receive true (.ok (.media chunk)))
        exact (Ends.enqueue out q chunk _).mono Or.inl fun h =>
          hreceives true (by rw [hq]; rfl) (hcounted.trans h)

theorem frame (out : Surface σ) (f : ByteArray) (hp : s.phase = .waiting)
    (hr : s.halted = false) :
    Ends (¬ out.Sturdy ∨ s.Withholds f) (s.totals.receive s.queue.isSome (Content.ofFrame f))
      (Receives s f) (s.handleFrame out f) := by
  have hcontent := content out f s
  unfold handleFrame
  rw [hr, if_neg (by decide)]
  generalize (s.register f).handleContent out (Content.ofFrame f) = s₁ at hcontent
  cases hcontent with
  | well h =>
    obtain ⟨_, _, _, _, hstays⟩ := id h
    have hphase : s₁.phase = .waiting := hstays.abreast.phase.trans hp
    have hcatch := Ends.catchUp out s₁
    rw [hstays.totals] at hcatch
    simp only [hphase]
    exact hcatch.mono .inl fun hnears => h.trans hnears.stays
  | down hwhy hdown ht =>
    simp only [hdown]
    exact .down hwhy hdown ht

end Receives

/-- A frame that is of no use is counted, and nothing else comes of it. -/
structure Discards (s : Supervisor σ) (f : ByteArray) (s' : Supervisor σ) : Prop where
  abreast : Abreast s s'
  totals : s'.totals = { s.totals with
    frames := s.totals.frames + 1
    malformedFrames := s.totals.malformedFrames + 1 }
  queue : s'.queue = s.queue
  generation : s'.generation = s.generation
  /-- The surface may still be moved to the live edge. -/
  journal : ∃ later : Journal, s'.journal = later ++ .received f :: s.journal ∧
    ∀ e ∈ later, (∃ g, e = .notified g) ∨ ∃ target, e = .sought target

theorem discards {out : Surface σ} {s : Supervisor σ} {f : ByteArray} (hout : out.Sturdy)
    (hp : s.phase = .waiting) (hr : s.halted = false) (hf : Content.malformed f = true) :
    s.Discards f (s.handleFrame out f) := by
  obtain ⟨why, hf⟩ : ∃ why, Content.ofFrame f = .error why := by
    unfold Content.malformed at hf
    split at hf
    · exact ⟨_, ‹_›⟩
    · cases hf
  let s₁ : Supervisor σ := { s.register f with
    totals := { (s.register f).totals with
      malformedFrames := (s.register f).totals.malformedFrames + 1 } }
  have hframe : s.handleFrame out f = s₁.catchUp out := by
    have hphase : s₁.phase ≠ .crashed := by simp [s₁, register, note, hp]
    unfold handleFrame
    rw [hr, hf, if_neg (by decide)]
    exact if_neg hphase
  rw [hframe]
  cases Ends.catchUp out s₁ with
  | well h =>
    obtain ⟨later, hj, hlater⟩ := h.journal
    have hcounted : Abreast s s₁ := ⟨rfl, rfl, rfl, rfl, rfl, id⟩
    exact ⟨hcounted.trans h.stays.abreast, h.stays.totals, h.queue, h.generation, later, hj,
      hlater⟩
  | down hwhy => exact absurd hout hwhy

end Supervisor

namespace Totals

variable (t : Totals) (queued : Bool) (f : ByteArray)

theorem receive_frames : (t.receive queued (Content.ofFrame f)).frames = t.frames + 1 := by
  unfold receive
  split
  · rfl
  · rfl
  · split <;> rfl
  · rfl

theorem receive_malformedFrames :
    (t.receive queued (Content.ofFrame f)).malformedFrames =
      t.malformedFrames + [f].countP Content.malformed := by
  cases hf : Content.ofFrame f with
  | error => simp [receive, Content.malformed, hf]
  | ok content =>
    cases content with
    | media => cases queued <;> simp [receive, Content.malformed, hf]
    | codecs | metadata => simp [receive, Content.malformed, hf]

end Totals

/-- What comes to a session while its connection is open, and among it these frames. -/
inductive Fed (out : Surface σ) (m : Moment σ) : List ByteArray → Moment σ → Prop where
  | refl : Fed out m [] m
  | frame {fs : List ByteArray} {f : ByteArray} {m' : Moment σ} (h : Fed out m fs m')
      (hi : Admits m'.supervisor m'.now (.received (.frame f))) :
      Fed out m (fs ++ [f]) (m'.handle out (.received (.frame f)) false)
  /-- A stop is asked for while the frame comes in, which is not handled any more. -/
  | late {fs : List ByteArray} {f : ByteArray} {m' : Moment σ} (h : Fed out m fs m')
      (hi : Admits m'.supervisor m'.now (.received (.frame f))) :
      Fed out m fs (m'.handle out (.received (.frame f)) true)
  | notice {fs : List ByteArray} {n : Notice} {m' : Moment σ} (stop : Bool) (h : Fed out m fs m')
      (hi : Admits m'.supervisor m'.now (.notice n)) : Fed out m fs (m'.handle out (.notice n) stop)
  | pass {fs : List ByteArray} {m' : Moment σ} {later : Nat} (h : Fed out m fs m')
      (hl : m'.now ≤ later) : Fed out m fs { m' with now := later }
  | stop {fs : List ByteArray} {m' : Moment σ} (h : Fed out m fs m') :
      Fed out m fs (m'.update requestStop)
  | notify {fs : List ByteArray} {m' : Moment σ} (h : Fed out m fs m') (n : Notice) :
      Fed out m fs (m'.update (Supervisor.notify · n))
  | touch {fs : List ByteArray} {m' : Moment σ} (h : Fed out m fs m') (x : σ) :
      Fed out m fs (m'.update fun s => { s with surface := x })

theorem Fed.run {out : Surface σ} {m m' : Moment σ} {fs : List ByteArray} (h : Fed out m fs m') :
    Run out m m' := by
  induction h with
  | refl => exact .refl m
  | frame _ hi ih => exact ih.trans (.single (.handle false hi))
  | late _ hi ih => exact ih.trans (.single (.handle true hi))
  | notice stop _ hi ih => exact ih.trans (.single (.handle stop hi))
  | pass _ hl ih => exact ih.trans (.single (.pass hl))
  | stop _ ih => exact ih.trans (.single (.stop _))
  | notify _ n ih => exact ih.trans (.single (.notify _ n))
  | touch _ x ih => exact ih.trans (.single (.touch _ x))

/-- What frames make of a session: they are counted, whatever they carry, and only one whose
details are put on record and cannot be takes the session down. -/
structure Lasts (s : Supervisor σ) (fs : List ByteArray) (s' : Supervisor σ) : Prop where
  killed : s'.phase = .crashed ↔ s.tracing = true ∧ ∃ f ∈ fs, Content.overtaxing f = true
  opened : s'.phase ≠ .crashed → s'.phase = .waiting ∧ s'.transport = s.transport ∧
    s'.state = s.state ∧ s'.tracing = s.tracing
  frames : s'.totals.frames = s.totals.frames + fs.length
  malformedFrames : s'.totals.malformedFrames =
    s.totals.malformedFrames + fs.countP Content.malformed

namespace Lasts

variable {out : Surface σ} {s s₁ s₂ : Supervisor σ} {fs : List ByteArray} {f : ByteArray}

theorem stays (h : Lasts s fs s₁) (h' : Stays s₁ s₂ []) : Lasts s fs s₂ := by
  obtain ⟨hphase, hstate, htransport, _⟩ := h'.abreast
  refine ⟨?_, ?_, ?_, ?_⟩
  · rw [hphase]
    exact h.killed
  · rw [hphase, htransport, hstate, h'.tracing]
    exact h.opened
  · rw [h'.totals]
    exact h.frames
  · rw [h'.totals]
    exact h.malformedFrames

theorem frame (h : Lasts s fs s₁) (hout : out.Sturdy) (hp : s₁.phase = .waiting)
    (hr : s₁.halted = false) : Lasts s (fs ++ [f]) (s₁.handleFrame out f) := by
  obtain ⟨_, htransport, hstate, htracing⟩ := h.opened (by simp [hp])
  -- A session that is still open was spared by all frames so far.
  have hspared : ¬ (s.tracing = true ∧ ∃ f ∈ fs, Content.overtaxing f = true) := by
    rw [← h.killed, hp]
    decide
  have hkilled : (s.tracing = true ∧ ∃ f' ∈ fs ++ [f], Content.overtaxing f' = true) ↔
      s₁.Withholds f := by
    rw [Withholds, htracing]
    constructor
    · rintro ⟨ht, f', hf', ho⟩
      rcases List.mem_append.mp hf' with hf' | hf'
      · exact absurd ⟨ht, f', hf', ho⟩ hspared
      · exact ⟨ht, List.mem_singleton.mp hf' ▸ ho⟩
    · rintro ⟨ht, ho⟩
      exact ⟨ht, f, by simp, ho⟩
  have hcounted {s₂ : Supervisor σ}
      (ht : s₂.totals = s₁.totals.receive s₁.queue.isSome (Content.ofFrame f)) :
      s₂.totals.frames = s.totals.frames + (fs ++ [f]).length ∧
      s₂.totals.malformedFrames =
        s.totals.malformedFrames + (fs ++ [f]).countP Content.malformed := by
    rw [ht, Totals.receive_frames, Totals.receive_malformedFrames, h.frames, h.malformedFrames,
      List.length_append, List.countP_append]
    exact ⟨Nat.add_assoc .., Nat.add_assoc ..⟩
  have hframe := Receives.frame out f hp hr
  generalize s₁.handleFrame out f = s₂ at hframe ⊢
  cases hframe with
  | well hwell =>
    obtain ⟨hkept, told, _, _, hstays⟩ := hwell
    obtain ⟨hframes, hmalformed⟩ := hcounted hstays.totals
    have hphase : s₂.phase = .waiting := hstays.abreast.phase.trans hp
    refine ⟨?_, fun _ => ?_, hframes, hmalformed⟩
    · rw [hkilled, hphase]
      exact iff_of_false nofun hkept
    · exact ⟨hphase, hstays.abreast.transport.trans htransport,
        hstays.abreast.state.trans hstate, hstays.tracing.trans htracing⟩
  | down hwhy hdown ht =>
    obtain ⟨hframes, hmalformed⟩ := hcounted ht
    have hwithholds : s₁.Withholds f := hwhy.resolve_left fun h => h hout
    refine ⟨?_, fun hne => absurd hdown hne, hframes, hmalformed⟩
    rw [hkilled]
    exact iff_of_true hdown hwithholds

end Lasts

theorem Supervisor.Idles.stays {s s' : Supervisor σ} (h : Idles s s') : Stays s s' [] :=
  ⟨h.toAbreast, h.passes.tracing, h.passes.totals, h.passes.events⟩

theorem Fed.lasts {out : Surface σ} {m m' : Moment σ} {fs : List ByteArray} (hout : out.Sturdy)
    (hm : Reachable out m) (hp : m.supervisor.phase = .waiting) (h : Fed out m fs m') :
    Lasts m.supervisor fs m'.supervisor := by
  induction h with
  | refl =>
    refine ⟨?_, fun _ => ⟨hp, rfl, rfl, rfl⟩, rfl, rfl⟩
    rw [hp]
    exact iff_of_false nofun (by simp)
  | @frame fs f m' h hi ih =>
    have hs : Sound m'.supervisor := (hm.run h.run).sound
    cases hi with
    | received _ hp' hr ht =>
      exact ih.frame hout hp' (hs.not_halted (by simp [hp']) hr)
  | @late fs f m' h hi ih =>
    -- The frame is read, and nothing is done with it.
    have hsame : m'.supervisor.requestStop.handleFrame out f = m'.supervisor.requestStop := rfl
    have hstays := (Idles.requestStop m'.supervisor).stays
    rw [← hsame] at hstays
    exact ih.stays hstays
  | @notice fs n m' stop h hi ih =>
    let s₁ := m'.supervisor.stopIf stop
    have hstopped : Stays m'.supervisor s₁ [] := (Idles.stopIf _ stop).stays
    have htaken : Stays s₁ { s₁ with notices := s₁.notices.tail } [] := .takeNotices s₁ _
    cases Ends.notice out n { s₁ with notices := s₁.notices.tail } with
    | well h => exact ih.stays ((hstopped.trans htaken).trans h)
    | down hwhy => exact absurd hout hwhy
  | pass h hl ih => exact ih
  | stop h ih => exact ih.stays (Idles.requestStop _).stays
  | notify h n ih => exact ih.stays (Idles.notify _ n).stays
  | touch h x ih => exact ih.stays (Idles.touch _ x).stays

/-- What becomes of an open session to which frames come, and what of those that come next. -/
structure Withstands (out : Surface σ) (m : Moment σ) (fs : List ByteArray) (m' : Moment σ) :
    Prop extends Lasts m.supervisor fs m'.supervisor where
  next : m'.supervisor.phase ≠ .crashed → m'.supervisor.stopRequested = false →
    ∀ f, Admits m'.supervisor m'.now (.received (.frame f))
  discards : ∀ f, Admits m'.supervisor m'.now (.received (.frame f)) →
    Content.malformed f = true →
    m'.supervisor.Discards f (m'.handle out (.received (.frame f)) false).supervisor

/-- Frames of any bytes, one after the other and in between all else that happens to an open
session, do not take it down, unless the total of somebody's observers is put on record and leaves
64 bits. -/
theorem frames_withstood {out : Surface σ} {m m' : Moment σ} {fs : List ByteArray}
    (hout : out.Sturdy) (hm : Reachable out m) (hp : m.supervisor.phase = .waiting)
    (ht : m.supervisor.transport.isSome = true) (h : Fed out m fs m') :
    Withstands out m fs m' := by
  have hlasts := h.lasts hout hm hp
  have hs : Sound m'.supervisor := (hm.run h.run).sound
  refine ⟨hlasts, fun hcrashed hr f => ?_, fun f hi hf => ?_⟩
  · obtain ⟨hphase, htransport, _⟩ := hlasts.opened hcrashed
    exact .received _ hphase hr (htransport ▸ ht)
  · cases hi with
    | received _ hp' hr =>
      exact Supervisor.discards hout hp' (hs.not_halted (by simp [hp']) hr) hf

theorem Tally.sturdy : Tally.surface.Sturdy :=
  ⟨fun _ _ => rfl, fun _ _ _ => rfl, fun _ _ _ => rfl, fun _ => rfl, fun _ => rfl,
    fun _ _ => rfl⟩

/-- An empty frame, which is discarded, and then a record that counts too many observers. -/
theorem frames_withstood_of_overflow :
    let m₀ : Moment Tally := ⟨0, .spawn "ws://camera" {} .zero true⟩
    let m := (m₀.handle Tally.surface .begin false).handle Tally.surface .connected false
    let f := FrameTag.metadata.build
      "\x7b\"observers\":\x7b\"a\":9223372036854775807,\"b\":1\x7d\x7d".toUTF8
    let m₁ := m.handle Tally.surface (.received (.frame .empty)) false
    let m₂ := m₁.handle Tally.surface (.received (.frame f)) false
    Content.malformed .empty = true ∧ Content.overtaxing f = true ∧
      Withstands Tally.surface m [.empty] m₁ ∧ m₁.supervisor.phase = .waiting ∧
      Withstands Tally.surface m [.empty, f] m₂ ∧ m₂.supervisor.phase = .crashed := by
  intro m₀ m f m₁ m₂
  have hbegin : Step Tally.surface m₀ _ := .handle false (.begin rfl)
  have hconnected : Step Tally.surface (m₀.handle Tally.surface .begin false) m :=
    .handle false (.connected (by decide +kernel) (by decide +kernel))
  have hm : Reachable Tally.surface m :=
    ((Reachable.spawn 0 "ws://camera" {} .zero true).step hbegin).step hconnected
  have hfirst : Fed Tally.surface m [.empty] m₁ :=
    .frame .refl (.received _ (by decide +kernel) (by decide +kernel) (by decide +kernel))
  have hsecond : Fed Tally.surface m [.empty, f] m₂ :=
    .frame hfirst (.received _ (by decide +kernel) (by decide +kernel) (by decide +kernel))
  exact ⟨by decide +kernel, by decide +kernel,
    frames_withstood Tally.sturdy hm (by decide +kernel) (by decide +kernel) hfirst,
    by decide +kernel,
    frames_withstood Tally.sturdy hm (by decide +kernel) (by decide +kernel) hsecond,
    by decide +kernel⟩

end LivePlayback
