import LivePlayback.Proofs.Session.SingleFlight

/-!
# Overlaps on a recording surface

A recording surface counts the appends made while one was in flight. In a rehearsal its appends in
flight are completed or rejected, and sinks that were released may complete as often as they like.
However this goes, nothing is counted.
-/

namespace LivePlayback.Rehearsal
set_option autoImplicit false

open Supervisor

/-! ## Rehearsals -/

namespace Stage

/-- Two recording surfaces with the same appends in flight; the rest may be set at will. -/
structure Alike (x y : Stage) : Prop where
  minimal : y.minimal = x.minimal
  inFlight : y.inFlight = x.inFlight
  overlaps : y.overlaps = x.overlaps

theorem Alike.refl (x : Stage) : Alike x x := ⟨rfl, rfl, rfl⟩

theorem Alike.trans {x y z : Stage} (h : Alike x y) (h' : Alike y z) : Alike x z :=
  ⟨h'.minimal.trans h.minimal, h'.inFlight.trans h.inFlight, h'.overlaps.trans h.overlaps⟩

section Append

variable {x : Stage} {g : Nat} {chunk : ByteArray}

/-- Without a chunk in flight an append overlaps nothing; it may be finished at once. -/
theorem append_accepted (hm : x.minimal = false) (hf : x.inFlight = [])
    (ha : (x.append g chunk).answer = some none) :
    (x.append g chunk).surface.minimal = false ∧
      (x.append g chunk).surface.overlaps = x.overlaps ∧
      ((x.append g chunk).surface.inFlight = [g] ∧ (x.append g chunk).notices = [] ∨
        (x.append g chunk).surface.inFlight = [] ∧
          (x.append g chunk).notices = [⟨g, none⟩]) := by
  cases hr : x.refusing with
  | true => simp [append, hm, hr, Reply.plain] at ha
  | false =>
    cases hc : x.completing <;> simp [append, hm, hr, hf, hc, record, reveal]

theorem append_refused {why : Fault} (hm : x.minimal = false)
    (ha : (x.append g chunk).answer = some (some why)) :
    (x.append g chunk).toAftermath = ⟨x, [], false⟩ := by
  cases hr : x.refusing with
  | true => simp [append, hm, hr, Reply.plain]
  | false => cases hc : x.completing <;> simp [append, hm, hr, hc, record, reveal] at ha

theorem append_answers : (x.append g chunk).answer ≠ none := by
  cases hm : x.minimal <;> cases hr : x.refusing <;> cases hc : x.completing <;>
    simp [append, hm, hr, hc, Reply.plain, record, reveal]

end Append

end Stage

/-- The append in flight is completed or rejected, and its session told; nothing happens if there is
none. -/
def finishAppend (generation : Nat) (rejection : Option String) (s : Supervisor Stage) :
    Supervisor Stage :=
  let (found, stage) := s.surface.finish generation
  let s := { s with surface := stage }
  if found then s.notify ⟨generation, rejection⟩ else s

inductive RehearsalStep : Moment Stage → Moment Stage → Prop where
  | pass {m : Moment Stage} {later : Nat} (h : m.now ≤ later) :
      RehearsalStep m { m with now := later }
  | stop (m : Moment Stage) : RehearsalStep m (m.update Supervisor.requestStop)
  | finish (m : Moment Stage) (generation : Nat) (rejection : Option String) :
      RehearsalStep m (m.update (finishAppend generation rejection))
  | completeLate {m : Moment Stage} {generation : Nat} (h : .released generation ∈ m.journal) :
      RehearsalStep m (m.update (Supervisor.notify · ⟨generation, none⟩))
  /-- What the surface supports, refuses, shows and so on is set. -/
  | set {m : Moment Stage} {x : Stage} (h : m.supervisor.surface.Alike x) :
      RehearsalStep m (m.update fun s => { s with surface := x })
  | handle {m : Moment Stage} {i : Input} (stop : Bool) (h : Admits m.supervisor m.now i) :
      RehearsalStep m (m.handle Stage.surface i stop)

/-- The moments to which a session comes on this stage. -/
inductive Rehearsed (stage : Stage) : Moment Stage → Prop where
  | spawn (now : Nat) (url : String) (config : Config) (tracing : Bool) :
      Rehearsed stage ⟨now, .spawn url config stage tracing⟩
  | step {m m' : Moment Stage} (hm : Rehearsed stage m) (h : RehearsalStep m m') :
      Rehearsed stage m'

theorem RehearsalStep.run {m m' : Moment Stage} (h : RehearsalStep m m') :
    Run Stage.surface m m' := by
  cases h with
  | pass h => exact .single (.pass h)
  | stop => exact .single (.stop m)
  | finish generation rejection =>
    have htouch : Run Stage.surface m _ :=
      .single (.touch m (m.supervisor.surface.finish generation).2)
    unfold Moment.update finishAppend
    simp only
    split
    · exact htouch.trans (.single (.notify _ ⟨generation, rejection⟩))
    · exact htouch
  | completeLate => exact .single (.notify m _)
  | set => exact .single (.touch m _)
  | handle stop h => exact .single (.handle stop h)

theorem Rehearsed.reachable {stage : Stage} {m : Moment Stage} (h : Rehearsed stage m) :
    Reachable Stage.surface m := by
  induction h with
  | spawn now url config tracing => exact .spawn now url config stage tracing
  | step _ step ih => exact ih.run step.run

/-! ## What is in flight -/

/-- The surface holds a chunk exactly while the sink of the queue owes a report. -/
structure Tidy (n : Nat) (s : Supervisor Stage) : Prop where
  recording : s.surface.minimal = false
  overlaps : s.surface.overlaps = n
  held : s.surface.inFlight = [] ∨
    ∃ q, s.queue = some q ∧ s.surface.inFlight = [q.generation]
  owed : ∀ q, s.queue = some q →
    s.journal.reported q.generation + s.surface.inFlight.length = s.journal.accepted q.generation
  unborn : ∀ g, s.generation < g → s.journal.reported g = 0

namespace Tidy

variable {n : Nat} {s s' : Supervisor Stage}

theorem inFlight_of_none (h : Tidy n s) (hq : s.queue = none) : s.surface.inFlight = [] := by
  rcases h.held with hf | ⟨q, hq', _⟩
  · exact hf
  · cases hq.symm.trans hq'

theorem grow (h : Tidy n s) (entries : Journal) (hj : s'.journal = entries ++ s.journal)
    (he : ∀ e ∈ entries, e.mute = true) (hx : s.surface.Alike s'.surface)
    (hq : s'.queue.map AppendQueue.generation = s.queue.map AppendQueue.generation)
    (hg : s'.generation = s.generation) : Tidy n s' := by
  have haccepted (g : Nat) : s'.journal.accepted g = s.journal.accepted g := by
    rw [hj, Journal.accepted_append_of_mute he]
  have hreported (g : Nat) : s'.journal.reported g = s.journal.reported g := by
    rw [hj, Journal.reported_append_of_mute he]
  have hqueue {q' : AppendQueue} (hq' : s'.queue = some q') :
      ∃ q, s.queue = some q ∧ q.generation = q'.generation := by
    rw [hq', Option.map_some] at hq
    exact Option.map_eq_some_iff.mp hq.symm
  refine ⟨hx.minimal.trans h.recording, hx.overlaps.trans h.overlaps, ?_, fun q' hq' => ?_, ?_⟩
  · rw [hx.inFlight]
    rcases h.held with hf | ⟨q, hq', hf⟩
    · exact .inl hf
    · rw [hq', Option.map_some] at hq
      obtain ⟨q', hs, hg⟩ := Option.map_eq_some_iff.mp hq
      exact .inr ⟨q', hs, hg ▸ hf⟩
  · obtain ⟨q, hs, hg⟩ := hqueue hq'
    rw [haccepted, hreported, hx.inFlight, ← hg]
    exact h.owed q hs
  · rw [hg]
    exact fun g hg => (hreported g).trans (h.unborn g hg)

/-! ### Calls of the surface -/

theorem alike_of_inquiry {x : Stage} {a : Aftermath Stage} (h : Inquiry Stage.surface x a) :
    x.Alike a.surface ∧ a.notices = [] := by
  cases h with
  | createSink codecs generation =>
    unfold Stage.surface Stage.createSink
    simp only
    split
    · exact ⟨⟨rfl, rfl, rfl⟩, rfl⟩
    · split
      · exact ⟨⟨rfl, rfl, rfl⟩, rfl⟩
      · split <;> exact ⟨⟨rfl, rfl, rfl⟩, rfl⟩
  | _ => exact ⟨⟨rfl, rfl, rfl⟩, rfl⟩

theorem alike_of_hears (h : Hears Stage.surface s s') :
    s.surface.Alike s'.surface ∧ s'.journal = s.journal := by
  induction h with
  | refl => exact ⟨.refl _, rfl⟩
  | call _ ha ih =>
    obtain ⟨hx, hn⟩ := alike_of_inquiry ha
    refine ⟨ih.1.trans hx, ?_⟩
    rw [Supervisor.absorb, hn]
    exact ih.2

theorem hear (h : Tidy n s) (hears : Hears Stage.surface s s') : Tidy n s' := by
  obtain ⟨hx, hj⟩ := alike_of_hears hears
  exact h.grow [] hj nofun hx (by rw [hears.queue]) hears.generation

theorem release {q : AppendQueue} (h : Tidy n s) (hq : s.queue = some q) :
    Tidy n (s.release Stage.surface q) := by
  have hf : s.surface.inFlight.erase q.generation = [] := by
    rcases h.held with hf | ⟨q', hq', hf⟩
    · simp [hf]
    · cases hq.symm.trans hq'
      simp [hf]
  have hx : (s.release Stage.surface q).surface =
      { s.surface with inFlight := s.surface.inFlight.erase q.generation }.record
        (.release q.generation) := by
    rw [show (s.release Stage.surface q).surface = s.surface.release q.generation from rfl,
      Stage.release, if_neg (by simp [h.recording])]
  have hj : (s.release Stage.surface q).journal =
      [.queueEnded q.summary, .released q.generation] ++ s.journal := rfl
  refine ⟨by rw [hx]; exact h.recording, by rw [hx]; exact h.overlaps, .inl (by rw [hx]; exact hf),
    nofun, fun g hg => ?_⟩
  rw [hj, Journal.reported_append_of_mute (by simp [Entry.mute])]
  exact h.unborn g hg

theorem destroyQueue (ha : s.Alive) (h : Tidy n s) : Tidy n (s.destroyQueue Stage.surface) := by
  cases hq : s.queue with
  | none => rwa [destroyQueue_of_none hq]
  | some q =>
    rw [destroyQueue_of_some hq (ha q hq)]
    exact h.release hq

/-- An announcement leaves a surface without a chunk in flight, and the next generation without a
report. -/
theorem announce {f : ByteArray} {codecs : Codecs} (ha : s.Alive) (h : Tidy n s)
    (hears : Hears Stage.surface ((s.register f).announce Stage.surface codecs) s') :
    Tidy n s' ∧ s'.surface.inFlight = [] ∧ s'.journal.reported s'.generation = 0 := by
  let d := (s.register f).destroyQueue Stage.surface
  have hregister : Tidy n (s.register f) :=
    h.grow [.received f] rfl (by simp [Entry.mute]) (.refl _) rfl rfl
  have hd : Tidy n d := hregister.destroyQueue ha
  have hq : d.queue = none := destroyQueue_queue _ _
  have hreported (g : Nat) (hg : d.generation < g) :
      ((s.register f).announce Stage.surface codecs).journal.reported g = 0 := by
    rw [show ((s.register f).announce Stage.surface codecs).journal =
      [.asked codecs.mimeType] ++ d.journal from rfl,
      Journal.reported_append_of_mute (by simp [Entry.mute])]
    exact hd.unborn g hg
  have hannounce : Tidy n ((s.register f).announce Stage.surface codecs) :=
    ⟨hd.recording, hd.overlaps, .inl (hd.inFlight_of_none hq),
      fun q' hq' => (Option.some_ne_none q' (hq'.symm.trans hq)).elim,
      fun g hg => hreported g (Nat.lt_of_succ_lt hg)⟩
  obtain ⟨hx, hj⟩ := alike_of_hears hears
  refine ⟨hannounce.hear hears, ?_, ?_⟩
  · rw [hx.inFlight]
    exact hd.inFlight_of_none hq
  · rw [hj, hears.generation]
    exact hreported _ (Nat.lt_succ_self _)

theorem install {codecs : Codecs} (h : Tidy n s) (hacc : s.Accounted)
    (hn : ∀ g codecs, Entry.created g codecs ∈ s.journal → g < s.generation)
    (hf : s.surface.inFlight = []) (hr : s.journal.reported s.generation = 0) :
    Tidy n (s.install codecs) := by
  have hzero : s.journal.accepted s.generation = 0 :=
    Balanced.accepted_eq_zero hacc fun codecs hc => Nat.lt_irrefl _ (hn _ codecs hc)
  have hj : (s.install codecs).journal =
    [.event (.codecChanged codecs), .created s.generation codecs] ++ s.journal := rfl
  refine ⟨h.recording, h.overlaps, .inl hf, ?_, fun g hg => ?_⟩
  · rintro q ⟨⟩
    rw [hj, Journal.reported_append_of_mute (by simp [Entry.mute]),
      Journal.accepted_append_of_mute (by simp [Entry.mute])]
    rw [show (s.install codecs).surface.inFlight = [] from hf]
    exact hr.trans hzero.symm
  · rw [hj, Journal.reported_append_of_mute (by simp [Entry.mute])]
    exact h.unborn g hg

/-- A sink whose reports are all in takes a chunk without an overlap. -/
theorem accept {q q' : AppendQueue} {chunk : ByteArray} (h : Tidy n s) (hacc : s.Accounted)
    (hb : s.Balanced) (hq : s.queue = some q) (hi : q.state = .idle)
    (hg : q'.generation = q.generation)
    (ha : (Stage.append s.surface q.generation chunk).answer = some none) :
    Tidy n { s.offerTo Stage.surface q.generation chunk true with queue := some q' } := by
  have howed := h.owed q hq
  have hbalance := hb.balance q hq
  rw [hi, if_neg (by decide)] at hbalance
  have hf : s.surface.inFlight = [] := List.length_eq_zero_iff.mp (by omega)
  rw [hf, List.length_nil] at howed
  have hle : q.generation ≤ s.generation := hacc.generation_le hq
  obtain ⟨hminimal, hoverlaps, hcases⟩ := Stage.append_accepted h.recording hf ha
  have hreported (g : Nat) : (s.offerTo Stage.surface q.generation chunk true).journal.reported g =
      Journal.due (Stage.append s.surface q.generation chunk).notices g + s.journal.reported g :=
    Journal.reported_ofNotices_append _ _ _
  have haccepted : (s.offerTo Stage.surface q.generation chunk true).journal.accepted
      q.generation = s.journal.accepted q.generation + 1 := by
    rw [Supervisor.offerTo, absorb, Journal.accepted_ofNotices_append, note, Journal.accepted_cons]
    simp [Entry.isAcceptedBy]
  refine ⟨hminimal, hoverlaps.trans h.overlaps, ?_, ?_, fun g hg' => ?_⟩
  · rcases hcases with ⟨hf', _⟩ | ⟨hf', _⟩
    · exact .inr ⟨q', rfl, hf'.trans (by rw [hg])⟩
    · exact .inl hf'
  · rintro _ ⟨⟩
    change (s.offerTo Stage.surface q.generation chunk true).journal.reported q'.generation +
      (Stage.append s.surface q.generation chunk).surface.inFlight.length =
        (s.offerTo Stage.surface q.generation chunk true).journal.accepted q'.generation
    rw [hg, hreported, haccepted]
    rcases hcases with ⟨hf', hn⟩ | ⟨hf', hn⟩ <;> rw [hf', hn] <;>
      simp [Journal.due, ← howed, Nat.add_comm]
  · have hne : q.generation ≠ g := fun he => by
      have hlt : s.generation < g := hg'
      omega
    refine (hreported g).trans ?_
    rw [h.unborn g hg']
    rcases hcases with ⟨_, hn⟩ | ⟨_, hn⟩ <;> rw [hn] <;> simp [Journal.due, hne]

theorem refuse {q q' : AppendQueue} {chunk : ByteArray} {why : Fault} (h : Tidy n s)
    (hq : s.queue = some q) (hg : q'.generation = q.generation)
    (ha : (Stage.append s.surface q.generation chunk).answer = some (some why)) :
    Tidy n { s.offerTo Stage.surface q.generation chunk false with queue := some q' } := by
  have hx := Stage.append_refused h.recording ha
  have hoffer : s.offerTo Stage.surface q.generation chunk false =
      s.note (.offered q.generation chunk false) := by
    rw [Supervisor.offerTo, show Stage.surface.append = Stage.append from rfl, hx]
    simp [absorb, Journal.ofNotices, note]
  have haccepted (g : Nat) : Journal.accepted (.offered q.generation chunk false :: s.journal) g =
      s.journal.accepted g := by simp [Journal.accepted_cons, Entry.isAcceptedBy]
  have hreported (g : Nat) : Journal.reported (.offered q.generation chunk false :: s.journal) g =
      s.journal.reported g := by simp [Journal.reported_cons, Entry.isReportOf]
  rw [hoffer]
  refine ⟨h.recording, h.overlaps, ?_, ?_, fun g hg' => (hreported g).trans (h.unborn g hg')⟩
  · rcases h.held with hf | ⟨q₁, hq₁, hf⟩
    · exact .inl hf
    · cases hq.symm.trans hq₁
      exact .inr ⟨q', rfl, hg ▸ hf⟩
  · rintro _ ⟨⟩
    rw [note, haccepted, hreported, hg]
    exact h.owed q hq

theorem playAct (hacc : s.Accounted) (hb : s.Balanced) (ha : s.Alive)
    (hp : PlayAct Stage.surface s s') (h : Tidy n s) : Tidy n s' := by
  cases hp with
  | hear hears => exact h.hear hears
  | seek position => exact h.grow [.sought position] rfl (by simp [Entry.mute]) (.refl _) rfl rfl
  | malformed | stray | withhold =>
    exact h.grow [.received _] rfl (by simp [Entry.mute]) (.refl _) rfl rfl
  | publish =>
    exact h.grow [.event (.metadata _), .metadata _, .received _] rfl (by simp [Entry.mute])
      (.refl _) rfl rfl
  | enqueue _ _ hq =>
    exact h.grow [.received _] rfl (by simp [Entry.mute]) (.refl _) (by simp [hq]) rfl
  | accept _ hq hi _ ha => exact h.accept hacc hb hq hi rfl ha
  | refuse _ hq _ _ ha => exact h.refuse hq rfl ha
  | finish _ hq =>
    exact h.grow [.finished _ _] rfl (by simp [Entry.mute]) (.refl _) (by simp [hq]) rfl
  | ignore => exact h.grow [] rfl (by simp) (.refl _) rfl rfl
  | install _ _ hears =>
    obtain ⟨hacc', _, hn⟩ := hacc.announce ha hears
    obtain ⟨h', hf, hr⟩ := h.announce ha hears
    exact h'.install hacc' hn hf hr
  | decline _ _ hears =>
    exact (h.announce ha hears).1.grow [.event (.codecUnsupported _ _)] rfl (by simp [Entry.mute])
      (.refl _) rfl rfl
  | falter _ _ hears => exact (h.announce ha hears).1

theorem act (hacc : s.Accounted) (hb : s.Balanced) (ha : s.Alive) (hact : Act Stage.surface s s')
    (h : Tidy n s) : Tidy n s' := by
  cases hact with
  | play hp => exact playAct hacc hb ha hp h
  | breakdown hbreaks =>
    cases hbreaks with
    | mk _ _ _ hnone => exact absurd hnone Stage.append_answers
  | quiet hquiet =>
    obtain ⟨entries, he, hj⟩ := hquiet.journal
    exact h.grow entries hj (fun e hm => Entry.mute_of_quiet (he e hm))
      (hquiet.surface ▸ .refl _) (by rw [hquiet.queue]) hquiet.generation
  | opened attempt => exact h.grow [.opened attempt] rfl (by simp [Entry.mute]) (.refl _) rfl rfl
  | drop => exact h.grow [.transportDropped _] rfl (by simp [Entry.mute]) (.refl _) rfl rfl
  | release hq => exact h.release hq
  | disconnect why =>
    exact h.grow [.event (.disconnected why)] rfl (by simp [Entry.mute]) (.refl _) rfl rfl
  | retire _ hs =>
    rw [setState, if_neg hs]
    exact h.grow [.event .stopped, .state .destroyed] rfl (by simp [Entry.mute]) (.refl _) rfl rfl

theorem journal_notify (s : Supervisor Stage) (notice : Notice) :
    ∃ notices, s.notify notice = { s.note (.notified notice.generation) with notices } := by
  unfold Supervisor.notify
  simp only
  split
  · exact ⟨_, rfl⟩
  · exact ⟨_, rfl⟩

theorem notify_of_other {g : Nat} (h : Tidy n s) (hle : g ≤ s.generation)
    (hne : ∀ q, s.queue = some q → q.generation ≠ g) (rejection : Option String) :
    Tidy n (s.notify ⟨g, rejection⟩) := by
  obtain ⟨notices, hnotify⟩ := journal_notify s ⟨g, rejection⟩
  rw [hnotify]
  have haccepted (g' : Nat) : Journal.accepted (.notified g :: s.journal) g' =
      s.journal.accepted g' := by simp [Journal.accepted_cons, Entry.isAcceptedBy]
  have hreported {g' : Nat} (hg : g' ≠ g) : Journal.reported (.notified g :: s.journal) g' =
      s.journal.reported g' := by simp [Journal.reported_cons, Entry.isReportOf, hg.symm]
  refine ⟨h.recording, h.overlaps, h.held, fun q hq => ?_, fun g' hg' => ?_⟩
  · rw [note, haccepted, hreported (hne q hq)]
    exact h.owed q hq
  · have hlt : s.generation < g' := hg'
    exact (hreported (by omega)).trans (h.unborn g' hg')

/-- The report of the chunk in flight settles the account. -/
theorem finish (h : Tidy n s) (hacc : s.Accounted) (g : Nat) (rejection : Option String) :
    Tidy n (finishAppend g rejection s) := by
  rcases h.held with hf | ⟨q, hq, hf⟩
  · have hsame : finishAppend g rejection s = s := by simp [finishAppend, Stage.finish, hf]
    rwa [hsame]
  · by_cases hg : q.generation = g
    · subst hg
      let s₁ : Supervisor Stage := { s with surface := { s.surface with inFlight := [] } }
      have hfinish : finishAppend q.generation rejection s =
          s₁.notify ⟨q.generation, rejection⟩ := by simp [finishAppend, Stage.finish, hf, s₁]
      obtain ⟨notices, hnotify⟩ := journal_notify s₁ ⟨q.generation, rejection⟩
      rw [hfinish, hnotify]
      have howed := h.owed q hq
      rw [hf] at howed
      refine ⟨h.recording, h.overlaps, .inl rfl, fun q' hq' => ?_, fun g' hg' => ?_⟩
      · cases hq.symm.trans hq'
        simpa [s₁, note, Journal.accepted_cons, Journal.reported_cons, Entry.isAcceptedBy,
          Entry.isReportOf] using howed
      · have hle : q.generation ≤ s.generation := hacc.generation_le hq
        have hlt : s.generation < g' := hg'
        have hne : q.generation ≠ g' := by omega
        simpa [s₁, note, Journal.reported_cons, Entry.isReportOf, hne] using h.unborn g' hg'
    · have hsame : finishAppend g rejection s = s := by
        simp [finishAppend, Stage.finish, hf, Ne.symm hg]
      rwa [hsame]

end Tidy

theorem Rehearsed.tidy {stage : Stage} {m : Moment Stage} (hm : stage.minimal = false)
    (hf : stage.inFlight = []) (h : Rehearsed stage m) : Tidy stage.overlaps m.supervisor := by
  induction h with
  | spawn => exact ⟨hm, rfl, .inl hf, nofun, fun _ _ => rfl⟩
  | @step m m' hr step ih =>
    have hreachable := hr.reachable
    have hacc : m.supervisor.Accounted := hreachable.accounted
    have hb : m.supervisor.Balanced := hreachable.balanced
    cases step with
    | pass => exact ih
    | stop => exact ih.grow [] rfl nofun (.refl _) rfl rfl
    | finish g rejection => exact ih.finish hacc g rejection
    | @completeLate g hreleased =>
      obtain ⟨codecs, hc⟩ := hacc.orderly.created_of_released hreleased
      refine ih.notify_of_other (hacc.numbered g codecs hc) (fun q hq hg => ?_) none
      obtain ⟨_, hr⟩ := hacc.unreleased hq
      exact hr (hg ▸ hreleased)
    | set hx => exact ih.grow [] rfl nofun hx rfl rfl
    | handle stop hi =>
      have hacts : Acts Stage.surface m.supervisor _ := .of_admits hreachable.sound hi stop
      have hkeep := hacts.keep (P := fun s => s.Accounted ∧ s.Balanced ∧ Tidy stage.overlaps s)
        (fun _ _ ha hact ⟨hacc, hb, ht⟩ =>
          ⟨hacc.act ha hact, hb.act hacc ha hact, ht.act hacc hb ha hact⟩)
        hreachable.alive ⟨hacc, hb, ih⟩
      exact hkeep.2.2.2

/-- Whatever the order of frames, reports and everything else, no sink is handed a chunk while it
holds one; so a recording surface counts no overlap in a rehearsal. -/
theorem single_flight :
    (∀ {σ : Type} (out : Surface σ) (m : Moment σ), Reachable out m → m.journal.SingleFlight) ∧
      ∀ (stage : Stage) (m : Moment Stage), stage.minimal = false → stage.inFlight = [] →
        Rehearsed stage m → m.supervisor.surface.overlaps = stage.overlaps :=
  ⟨fun _ _ h => h.balanced.settled.singleFlight, fun _ _ hm hf h => (h.tidy hm hf).overlaps⟩

/-- Two chunks, of which the second waits until the first one is completed. -/
theorem single_flight_of_completion :
    let out := Stage.surface
    let frame (tag : FrameTag) (text : String) : Input := .received (.frame (tag.build text.toUTF8))
    let m₀ : Moment Stage := ⟨0, .spawn "ws://camera" {} (.create false) false⟩
    let m := (((((m₀.handle out .begin false).handle out .connected false).handle out
      (frame .codec "avc1") false).handle out (frame .media "a") false).handle out
      (frame .media "b") false).update (finishAppend 1 none)
    m.journal.accepted 1 = 1 ∧ m.journal.reported 1 = 1 ∧ m.supervisor.notices = [⟨1, none⟩] ∧
      m.journal.SingleFlight ∧ m.supervisor.surface.overlaps = 0 := by
  intro out frame m₀ m
  have hframe {m : Moment Stage} (tag : FrameTag) (text : String) (hm : Rehearsed (.create false) m)
      (hp : m.supervisor.phase = .waiting) (hs : m.supervisor.stopRequested = false)
      (ht : m.supervisor.transport.isSome = true) :
      Rehearsed (.create false) (m.handle out (frame tag text) false) :=
    hm.step (.handle false (.received _ hp hs ht))
  have hopen : Rehearsed (.create false)
      ((m₀.handle out .begin false).handle out .connected false) :=
    ((Rehearsed.spawn 0 "ws://camera" {} false).step (.handle false (.begin rfl))).step
      (.handle false (.connected rfl rfl))
  have hcodec := hframe .codec "avc1" hopen rfl rfl rfl
  have hfirst := hframe .media "a" hcodec
    (by decide +kernel) (by decide +kernel) (by decide +kernel)
  have hsecond := hframe .media "b" hfirst
    (by decide +kernel) (by decide +kernel) (by decide +kernel)
  have hm : Rehearsed (.create false) m := hsecond.step (.finish _ 1 none)
  exact ⟨by decide +kernel, by decide +kernel, by decide +kernel,
    single_flight.1 out m hm.reachable, single_flight.2 (.create false) m rfl rfl hm⟩

end LivePlayback.Rehearsal
