import LivePlayback.Proofs.Session.Retries
import LivePlayback.Rehearsal.Stage

/-!
# Perseverance

A session makes its first attempt when it starts, and one more each time the timer goes off that
was set when the last one was lost, until it is stopped.
-/

namespace LivePlayback
set_option autoImplicit false

open Supervisor

variable {σ : Type}

namespace Retry

/-- Where a session stands in each phase. -/
inductive Stands (s : Supervisor σ) (now : Nat) : Position → Prop where
  | unstarted (hp : s.phase = .spawned) : Stands s now .unstarted
  | connecting {since : Nat} (hp : s.phase = .connecting) (hn : since ≤ now) :
      Stands s now (.trying since)
  | playing {since : Nat} (hp : s.phase = .waiting) (ht : s.transport.isSome = true)
      (hn : since ≤ now) : Stands s now (.trying since)
  | pausing {deadline : Nat} (hp : s.phase = .waiting) (ht : s.transport = none)
      (hd : s.timer.deadline = some deadline) : Stands s now (.waiting deadline)
  | done {pos : Position} (hs : s.phase ≠ .spawned) (ha : ¬ s.Awaits) : Stands s now pos

namespace Stands

variable {s s' : Supervisor σ} {now : Nat} {i : Input} {pos : Position} {told before : Journal}

theorem abreast {later : Nat} (h : Stands s now pos) (ha : Abreast s s') (hn : now ≤ later) :
    Stands s' later pos := by
  cases h with
  | unstarted hp => exact .unstarted (ha.phase.trans hp)
  | connecting hp hn' => exact .connecting (ha.phase.trans hp) (hn'.trans hn)
  | playing hp ht hn' => exact .playing (ha.phase.trans hp) (ha.transport ▸ ht) (hn'.trans hn)
  | pausing hp ht hd => exact .pausing (ha.phase.trans hp) (ha.transport ▸ ht) (ha.timer ▸ hd)
  | done hs hw => exact .done (ha.phase ▸ hs) (by simpa [Awaits, ha.phase] using hw)

theorem of_loses {why : Option String} {first : Journal} (h : Stands s now pos)
    (hl : Loses s i why first) : ∃ since, pos = .trying since ∧ since ≤ now := by
  cases h with
  | connecting _ hn | playing _ _ hn => exact ⟨_, rfl, hn⟩
  | unstarted hp => cases hl <;> simp_all
  | pausing _ ht => cases hl <;> simp_all
  | done _ ha => exact absurd hl.awaits ha

theorem of_spawned (h : Stands s now pos) (hp : s.phase = .spawned) : pos = .unstarted := by
  cases h with
  | unstarted => rfl
  | done hs => exact absurd hp hs
  | connecting hp' | playing hp' | pausing hp' => simp [hp] at hp'

theorem of_connecting (h : Stands s now pos) (hp : s.phase = .connecting) :
    ∃ since, pos = .trying since ∧ since ≤ now := by
  cases h with
  | connecting _ hn => exact ⟨_, rfl, hn⟩
  | done _ ha => exact absurd (.inl hp) ha
  | unstarted hp' | playing hp' | pausing hp' => simp [hp] at hp'

theorem of_lost (h : Stands s now pos) (hp : s.phase = .waiting) (ht : s.transport = none) :
    ∃ deadline, pos = .waiting deadline ∧ s.timer.deadline = some deadline := by
  cases h with
  | pausing _ _ hd => exact ⟨_, rfl, hd⟩
  | done _ ha => exact absurd (.inr hp) ha
  | unstarted hp' | connecting hp' => simp [hp] at hp'
  | playing _ ht' => simp [ht] at ht'

theorem move (h : Stands s now pos) (hm : Move s now i s' told)
    (hdue : i = .reconnect → s.timer.due now = true) (ht : Told s.timer.delay pos before) :
    ∃ pos', Stands s' now pos' ∧ Told s.timer.delay pos' (told ++ before) := by
  cases hm with
  | start hp _ hp' =>
    obtain rfl := h.of_spawned hp
    cases ht with
    | unstarted => exact ⟨.trying now, .connecting hp' le_rfl, .first _ now⟩
  | unstarted _ hp' => exact ⟨pos, .done (by simp [hp']) (by simp [Awaits, hp']), ht⟩
  | again hp hnone _ hp' =>
    obtain ⟨deadline, rfl, hd⟩ := h.of_lost hp hnone
    have hn : deadline ≤ now := by simpa [ReconnectTimer.due, hd] using hdue rfl
    exact ⟨.trying now, .connecting hp' le_rfl, .again ht _ hn⟩
  | tooLate hp hnone _ hp' =>
    obtain ⟨deadline, rfl, hd⟩ := h.of_lost hp hnone
    have hn : deadline ≤ now := by simpa [ReconnectTimer.due, hd] using hdue rfl
    exact ⟨.ended, .done (by simp [hp']) (by simp [Awaits, hp']), .tooLate ht hn⟩
  | lost hl _ hp' ht' hd' =>
    obtain ⟨since, rfl, hn⟩ := h.of_loses hl
    exact ⟨_, .pausing hp' ht' hd', .lost ht _ hn⟩
  | givenUp hl hp' =>
    obtain ⟨since, rfl, _⟩ := h.of_loses hl
    exact ⟨.ended, .done (by simp [hp']) (by simp [Awaits, hp']), .givenUp ht _⟩
  | opened hp hp' ht' =>
    obtain ⟨since, rfl, hn⟩ := h.of_connecting hp
    exact ⟨_, .playing hp' ht' hn, ht⟩
  | still _ _ ha => exact ⟨pos, h.abreast ha le_rfl, ht⟩
  | done _ _ hs ha => exact ⟨pos, .done hs ha, ht⟩

end Stands

end Retry

open Retry Moment

section

variable {out : Surface σ} {m m' : Moment σ}

theorem Step.now_le (h : Step out m m') : m.now ≤ m'.now := by
  cases h with
  | pass h => exact h
  | stop | notify | touch | handle => exact le_rfl

theorem Takes.tells (h : Takes out m m') : ∃ told, Tells m.supervisor m'.supervisor told := by
  cases h with
  | idle h => exact ⟨_, h.passes.toTells⟩
  | handle stop _ _ h =>
    obtain ⟨_, htells⟩ := h.tells
    exact ⟨_, (Idles.stopIf m.supervisor stop).passes.toTells.trans htells⟩

theorem Run.tells (hm : Reachable out m) (h : Run out m m') :
    ∃ told, Tells m.supervisor m'.supervisor told := by
  induction h with
  | refl => exact ⟨_, .refl _⟩
  | tail hrun step ih =>
    obtain ⟨_, htells⟩ := ih
    obtain ⟨_, htells'⟩ := (step.takes (hm.run hrun).sound).tells
    exact ⟨_, htells.trans htells'⟩

theorem Moment.moves {i : Input} (hm : Reachable out m) (hi : Admits m.supervisor m.now i)
    (stop : Bool) : ∃ told,
      Move (m.supervisor.stopIf stop) m.now i (m.handle out i stop).supervisor told ∧
        (m.handle out i stop).journal.retries = told ++ m.journal.retries := by
  obtain ⟨told, hmove, hretries⟩ :=
    handle_moves out (hm.sound.stopIf stop) (hm.sound.comes hi stop)
  -- The stop that may come first is in no entry.
  have hidle : (m.supervisor.stopIf stop).journal.retries = m.journal.retries :=
    (Idles.stopIf m.supervisor stop).passes.retries
  rw [hidle] at hretries
  exact ⟨told, hmove, hretries⟩

/-- At every moment a session stands somewhere on its course, and has told how it got there. -/
theorem Reachable.stands (h : Reachable out m) : ∃ pos, Stands m.supervisor m.now pos ∧
    Told m.supervisor.timer.delay pos m.journal.retries := by
  -- What is not handled leaves the session where it stands; time makes the last attempt older.
  induction h with
  | spawn => exact ⟨.unstarted, .unstarted rfl, .unstarted⟩
  | @step m m' hm step ih =>
    obtain ⟨pos, hstands, htold⟩ := ih
    cases step.takes hm.sound with
    | idle hi =>
      have hretries : m'.journal.retries = m.journal.retries := hi.passes.retries
      rw [hi.passes.delay, hretries]
      exact ⟨pos, hstands.abreast hi.toAbreast step.now_le, htold⟩
    | @handle i stop hi _ hh =>
      have hidles := Idles.stopIf m.supervisor stop
      obtain ⟨_, htells⟩ := hh.tells
      obtain ⟨told, hmove, hretries⟩ := Moment.moves hm hi stop
      have hdue : i = .reconnect → (m.supervisor.stopIf stop).timer.due m.now = true := by
        rintro rfl
        cases hi with
        | reconnect _ _ hd => rwa [stopIf_timer]
      rw [htells.delay, hretries]
      rw [← hidles.passes.delay] at htold
      exact (hstands.abreast hidles.toAbreast le_rfl).move hmove hdue htold

theorem Moment.attempts_handle {i : Input} (hm : Reachable out m)
    (hi : Admits m.supervisor m.now i) (stop : Bool) :
    (m.handle out i stop).journal.attempts = m.journal.attempts ++
      if i.opens = true ∧ (m.supervisor.stopIf stop).stopRequested = false then [m.now]
        else [] := by
  obtain ⟨told, hmove, hretries⟩ := Moment.moves hm hi stop
  rw [← Journal.attempts_retries, hretries, ← hmove.attempts, ← Journal.attempts_retries m.journal]
  exact Journal.select_append ..

theorem Moment.arms_handle {i : Input} (hm : Reachable out m) (hi : Admits m.supervisor m.now i)
    (stop : Bool) : (m.handle out i stop).journal.arms = m.journal.arms ++
      if i.isLoss = true ∧ (m.handle out i stop).supervisor.stopRequested = false
        then [(m.now, m.supervisor.timer.delay.alarm m.now)] else [] := by
  have hsound : Sound (m.handle out i stop).supervisor := (hm.step (.handle stop hi)).sound
  obtain ⟨told, hmove, hretries⟩ := Moment.moves hm hi stop
  rw [← stopIf_timer m.supervisor stop, ← Journal.arms_retries, hretries, ← hmove.arms hsound,
    ← Journal.arms_retries m.journal]
  exact Journal.select_append ..

theorem Journal.WindsTo.attempts {j j' : Journal} {events : List Event}
    (h : j.WindsTo j' events) : j'.attempts = j.attempts := by
  obtain ⟨later, rfl, hidle, _⟩ := h
  have hnone : later.attempts = [] := by
    refine List.reverse_eq_nil_iff.mpr (List.filterMap_eq_nil_iff.mpr fun e he => ?_)
    cases e with
    | connecting => cases hidle _ he
    | _ => rfl
  rw [Journal.attempts, Journal.select_append]
  exact (congrArg (j.attempts ++ ·) hnone).trans (List.append_nil _)

/-- After a stop there is no attempt, even if the stop comes with what would start one. -/
theorem StoppedIn.attempts {told : List Event} {m₁ : Moment σ} (hm : Reachable out m)
    (hs : StoppedIn out m told m₁) (h : Run out m₁ m') :
    m'.journal.attempts = m.journal.attempts := by
  cases hs with
  | already hr => exact (h.winds hm hr).1.journal.attempts
  | @meanwhile i hi =>
    have hm₁ : Reachable out (m.handle out i true) := hm.step (.handle true hi)
    have hwinds : Winds m.supervisor (m.handle out i true).supervisor _ :=
      Moment.winds_handle hm hi rfl
    have hr : (m.handle out i true).supervisor.stopRequested = true :=
      (Winds.handle out (hm.sound.comes hi true) rfl).stopped rfl
    exact (h.winds hm₁ hr).1.journal.attempts.trans hwinds.journal.attempts

end

/-! ## Where attempts go -/

/-- A host that answers for one address only. -/
def Host.aimedAt {η : Type} (host : Host η) (url : String) : Host η :=
  { host with
    connect h now asked :=
      if asked = url then host.connect h now asked else ⟨.ready .crashed, h, false, 0⟩ }

namespace Supervisor

variable {η : Type} {out : Surface σ} {now : Nat}

theorem step_aimedAt (host : Host η) (s : Supervisor σ) (h : η) :
    s.step out (host.aimedAt s.url) now h = s.step out host now h := by
  have hconnect : (host.aimedAt s.url).connect h now s.url = host.connect h now s.url :=
    if_pos rfl
  unfold step
  rw [hconnect]
  rfl

theorem runWithin_aimedAt (host : Host η) (turns left : Nat) {s : Supervisor σ}
    (hs : Reachable out ⟨now, s⟩) (h : η) :
    runWithin out (host.aimedAt s.url) now turns left s h =
      runWithin out host now turns left s h := by
  -- A step does not change the address, so the next turn asks for the same one.
  induction turns generalizing left s h with
  | zero => rfl
  | succ turns ih =>
    have hrun : Run out ⟨now, s⟩ ⟨now, (s.step out host now h).supervisor⟩ := run_step s h
    obtain ⟨_, htells⟩ := hrun.tells hs
    have hurl : (s.step out host now h).supervisor.url = s.url := htells.url
    unfold runWithin
    rw [step_aimedAt]
    simp only
    rw [← hurl, ih _ (hs.run hrun)]

end Supervisor

/-- How a session gets its connections. -/
structure Moment.Perseveres (out : Surface σ) (url : String) (delay : Duration) (m : Moment σ) :
    Prop where
  /-- One attempt after the other, each but the first by an alarm of its own, and an alarm for each
  loss that is not the last thing that happens. -/
  course : ∃ pos, Told delay pos m.journal.retries
  begins : m.supervisor.phase = .spawned →
    m.supervisor.turn m.now = .take .begin ∧ m.journal.retries = []
  resumes : m.supervisor.stopRequested = false → m.supervisor.timer.due m.now = true →
    m.supervisor.turn m.now = .take .reconnect
  attempts : ∀ i stop, Admits m.supervisor m.now i →
    (m.handle out i stop).journal.attempts = m.journal.attempts ++
      if i.opens = true ∧ (m.supervisor.stopIf stop).stopRequested = false then [m.now] else []
  /-- The timer is set for a delay after the loss, as long as that is not longer than any alarm. -/
  arms : ∀ i stop, Admits m.supervisor m.now i →
    (m.handle out i stop).journal.arms = m.journal.arms ++
      if i.isLoss = true ∧ (m.handle out i stop).supervisor.stopRequested = false
        then [(m.now, m.now + min delay.nanos Duration.longest.nanos)] else []
  armed : ∀ deadline, m.supervisor.timer.deadline = some deadline →
    m.supervisor.state = .reconnectPending ∧
      ∃ lost, m.journal.arms.getLast? = some (lost, deadline)
  bounded : m.journal.attempts.length ≤ m.journal.losses + 1
  spaced : m.journal.attempts.IsChain fun earlier later =>
    earlier + min delay.nanos Duration.longest.nanos ≤ later
  aimed : ∀ {η : Type} (host : Host η) (turns : Nat) (h : η),
    m.supervisor.run out (host.aimedAt url) m.now turns h =
      m.supervisor.run out host m.now turns h
  stopped : ∀ told m₁ m', StoppedIn out m told m₁ → Run out m₁ m' →
    m'.journal.attempts = m.journal.attempts

/-- Whatever its connector, its transports and its surface do, a session tries again as it was
configured to. -/
theorem session_perseveres {out : Surface σ} {now : Nat} {url : String} {config : Config} {x : σ}
    {tracing : Bool} {m : Moment σ} (h : Run out ⟨now, .spawn url config x tracing⟩ m) :
    m.Perseveres out url config.reconnectDelay := by
  have hspawn : Reachable out ⟨now, .spawn url config x tracing⟩ := .spawn now url config x tracing
  have hm : Reachable out m := hspawn.run h
  obtain ⟨_, htells⟩ := h.tells hspawn
  have hurl : m.supervisor.url = url := htells.url
  have hdelay : m.supervisor.timer.delay = config.reconnectDelay := htells.delay
  obtain ⟨pos, hstands, htold⟩ := hm.stands
  rw [hdelay] at htold
  constructor
  case course => exact ⟨pos, htold⟩
  case begins =>
    intro hp
    obtain rfl := hstands.of_spawned hp
    refine ⟨by simp [turn, hp], ?_⟩
    generalize m.journal.retries = retries at htold
    cases htold with
    | unstarted => rfl
  case resumes =>
    intro hr hdue
    obtain ⟨hp, _⟩ := hm.sound.of_armed (ReconnectTimer.armed_of_due hdue)
    simp [turn, hp, hr, hdue]
  case attempts => exact fun i stop hi => attempts_handle hm hi stop
  case arms =>
    intro i stop hi
    rw [arms_handle hm hi stop, hdelay]
    rfl
  case armed =>
    intro deadline hd
    obtain ⟨hp, ht, hs⟩ := hm.sound.of_armed (by simp [ReconnectTimer.armed, hd])
    obtain ⟨deadline', rfl, hd'⟩ := hstands.of_lost hp ht
    obtain ⟨lost, hlost⟩ := htold.arm_of_waiting
    refine ⟨hs, lost, ?_⟩
    rw [← Journal.arms_retries, Journal.arms, Journal.select, List.getLast?_reverse, hlost,
      Option.some.inj (hd.symm.trans hd')]
  case bounded =>
    have hlength := htold.length_attempts
    rw [Journal.losses_retries] at hlength
    rw [← Journal.attempts_retries, Journal.attempts, Journal.select, List.length_reverse, hlength]
    exact Nat.add_le_add_left pos.pending_le_one _
  case spaced =>
    rw [← Journal.attempts_retries]
    exact List.isChain_reverse.mpr htold.spaced
  case aimed =>
    intro η host turns h
    rw [← hurl]
    exact runWithin_aimedAt host turns allowance hm h
  case stopped => exact fun told m₁ m' hs h => hs.attempts hm h

/-- A session whose connection is closed at once. -/
theorem session_perseveres_of_loss :
    let out := Rehearsal.Stage.surface
    let lost := Moment.scripted out (.create false) [.closed] 3
    let m := Moment.handle { lost with now := 3000000000 } out .reconnect false
    m.journal.attempts = [0, 3000000000] ∧ m.Perseveres out "ws://camera" ⟨3000000000⟩ := by
  intro out lost m
  have hlost : Run out ⟨0, .spawn "ws://camera" {} (.create false) false⟩ lost :=
    Moment.run_scripted ..
  have hpass : Step out lost { lost with now := 3000000000 } := .pass (by decide +kernel)
  have hagain : Step out { lost with now := 3000000000 } m :=
    .handle false (.reconnect (by decide +kernel) (by decide +kernel) (by decide +kernel))
  exact ⟨by decide +kernel,
    session_perseveres (hlost.trans ((Run.single hpass).trans (.single hagain)))⟩

end LivePlayback
