import LivePlayback.Rehearsal.Timer

/-!
# Waiting for the timer

A timer is set, cancelled and waited for in any order. A wait is looked at now and then until the
timer ends it or it is given up. Whether a look ends it depends on the time and on when the timer
was set last, as long as it has neither been cancelled nor gone off since, and on nothing else.
-/

namespace LivePlayback
set_option autoImplicit false

namespace Vigil

/-- What is done with a timer, and what becomes of the waits for it. -/
inductive Mark where
  | armed (now : Nat)
  | cancelled (now : Nat)
  /-- The timer ends a wait. -/
  | fired (now : Nat)
  /-- A wait is looked at in vain. -/
  | missed (now : Nat)
  | givenUp (now : Nat)

inductive Move where
  | pass (time : Nat)
  | arm
  | cancel
  /-- The wait under way is looked at, or a new one is begun. -/
  | look
  | giveUp

def Mark.ended? : Mark → Option Nat
  | .fired now => some now
  | _ => none

def Mark.disarms : Mark → Bool
  | .cancelled _ | .fired _ => true
  | .armed _ | .missed _ | .givenUp _ => false

def Move.sets : Move → Bool
  | .arm | .cancel => true
  | .pass _ | .look | .giveUp => false

/-- When the timer was set, if it has neither been cancelled nor gone off since. -/
def setAt? : List Mark → Option Nat
  | [] => none
  | .armed now :: _ => some now
  | .cancelled _ :: _ | .fired _ :: _ => none
  | .missed _ :: log | .givenUp _ :: log => setAt? log

def ended (log : List Mark) : List Nat := log.filterMap Mark.ended?

end Vigil

structure Vigil where
  now : Nat
  timer : ReconnectTimer
  waiting : Bool
  /-- Newest first. -/
  log : List Vigil.Mark

namespace Vigil

def start (delay : Duration) : Vigil := ⟨0, .create delay, false, []⟩

def giveUp (v : Vigil) : Vigil :=
  if v.waiting then { v with waiting := false, log := .givenUp v.now :: v.log } else v

def look (v : Vigil) : Vigil :=
  match v.timer.fire? v.now with
  | some timer => { v with timer, waiting := false, log := .fired v.now :: v.log }
  | none => { v with waiting := true, log := .missed v.now :: v.log }

/-- A wait keeps nothing of its own, so it does not matter which wait is looked at. It has hold of
the timer, which can only be set or cancelled once the wait is given up. -/
def move (v : Vigil) : Move → Vigil
  | .pass time => { v with now := v.now + time }
  | .arm =>
    { v.giveUp with timer := v.timer.arm v.now, log := .armed v.now :: v.giveUp.log }
  | .cancel =>
    { v.giveUp with timer := v.timer.cancel, log := .cancelled v.now :: v.giveUp.log }
  | .look => v.look
  | .giveUp => v.giveUp

def play (v : Vigil) (moves : List Move) : Vigil := moves.foldl move v

theorem play_append (v : Vigil) (moves moves' : List Move) :
    v.play (moves ++ moves') = (v.play moves).play moves' := List.foldl_append

/-! ## What the log tells -/

theorem setAt?_of_disarms {newer older : List Mark} {m : Mark} (hm : m.disarms = true)
    (hn : ∀ t, .armed t ∉ newer) : setAt? (newer ++ m :: older) = none := by
  induction newer with
  | nil =>
    cases m with
    | cancelled | fired => rfl
    | armed | missed | givenUp => cases hm
  | cons m' newer ih =>
    have hrest := ih fun t ht => hn t (List.mem_cons_of_mem _ ht)
    cases m' with
    | armed now => exact absurd List.mem_cons_self (hn now)
    | cancelled | fired => rfl
    | missed | givenUp => exact hrest

/-- Waits are ended by a timer that is set and whose deadline has come. -/
inductive Told (delay : Duration) : List Mark → Prop where
  | nil : Told delay []
  | fired {log : List Mark} {since now : Nat} (h : Told delay log) (hs : setAt? log = some since)
      (hn : delay.alarm since ≤ now) : Told delay (.fired now :: log)
  | other {log : List Mark} {m : Mark} (h : Told delay log) (hm : m.ended? = none) :
      Told delay (m :: log)

namespace Told

variable {delay : Duration} {newer older : List Mark} {now : Nat}

theorem of_append (h : Told delay (newer ++ older)) : Told delay older := by
  induction newer with
  | nil => exact h
  | cons m newer ih =>
    cases h with
    | fired h => exact ih h
    | other h => exact ih h

theorem setAt_of_fired (h : Told delay (newer ++ .fired now :: older)) :
    ∃ since, setAt? older = some since ∧ delay.alarm since ≤ now := by
  cases h.of_append with
  | fired _ hs hn => exact ⟨_, hs, hn⟩
  | other _ hm => cases hm

/-- Before the timer can end a wait again, it has to be set. -/
theorem armed_of_fired {m : Mark} (h : Told delay (newer ++ m :: older)) (hm : m.disarms = true)
    (hf : .fired now ∈ newer) : ∃ t, .armed t ∈ newer := by
  apply Classical.byContradiction
  intro hnone
  -- Otherwise the log up to the later wait would still say that the timer is not set.
  obtain ⟨later, earlier, rfl⟩ := List.append_of_mem hf
  rw [List.append_assoc, List.cons_append] at h
  obtain ⟨since, hs, _⟩ := h.setAt_of_fired
  have hdisarmed : setAt? (earlier ++ m :: older) = none := by
    apply setAt?_of_disarms hm
    intro t ht
    exact hnone ⟨t, List.mem_append_right _ (List.mem_cons_of_mem _ ht)⟩
  rw [hdisarmed] at hs
  cases hs

end Told

structure Kept (delay : Duration) (v : Vigil) : Prop where
  fixed : v.timer.delay = delay
  deadline : v.timer.deadline = (setAt? v.log).map delay.alarm
  told : Told delay v.log

theorem ended_giveUp (v : Vigil) : ended v.giveUp.log = ended v.log := by
  unfold giveUp
  split <;> rfl

theorem timer_giveUp (v : Vigil) : v.giveUp.timer = v.timer := by
  unfold giveUp
  split <;> rfl

theorem look_of_due {v : Vigil} (h : v.timer.due v.now = true) : v.look =
    { v with timer := v.timer.cancel, waiting := false, log := .fired v.now :: v.log } := by
  have hfire : v.timer.fire? v.now = some v.timer.cancel := if_pos h
  rw [look, hfire]

theorem look_of_not_due {v : Vigil} (h : ¬ v.timer.due v.now = true) : v.look =
    { v with waiting := true, log := .missed v.now :: v.log } := by
  have hfire : v.timer.fire? v.now = none := if_neg h
  rw [look, hfire]

namespace Kept

variable {delay : Duration} {v : Vigil}

theorem start (delay : Duration) : (start delay).Kept delay := ⟨rfl, rfl, .nil⟩

theorem due_iff (h : v.Kept delay) : v.timer.due v.now = true ↔
    ∃ since, setAt? v.log = some since ∧ delay.alarm since ≤ v.now := by
  have hdeadline := h.deadline
  cases hs : setAt? v.log with
  | none =>
    rw [hs] at hdeadline
    simp [ReconnectTimer.due, hdeadline]
  | some since =>
    rw [hs] at hdeadline
    simp [ReconnectTimer.due, hdeadline]

theorem giveUp (h : v.Kept delay) : v.giveUp.Kept delay := by
  unfold Vigil.giveUp
  split
  · exact ⟨h.fixed, h.deadline, h.told.other rfl⟩
  · exact h

theorem look (h : v.Kept delay) : v.look.Kept delay := by
  by_cases hdue : v.timer.due v.now = true
  · obtain ⟨since, hs, hn⟩ := h.due_iff.mp hdue
    rw [look_of_due hdue]
    exact ⟨h.fixed, rfl, h.told.fired hs hn⟩
  · rw [look_of_not_due hdue]
    exact ⟨h.fixed, h.deadline, h.told.other rfl⟩

theorem move (h : v.Kept delay) (m : Move) : (v.move m).Kept delay := by
  cases m with
  | pass time => exact ⟨h.fixed, h.deadline, h.told⟩
  | arm =>
    refine ⟨h.fixed, ?_, h.giveUp.told.other rfl⟩
    rw [← h.fixed]
    rfl
  | cancel => exact ⟨h.fixed, rfl, h.giveUp.told.other rfl⟩
  | look => exact h.look
  | giveUp => exact h.giveUp

theorem play (h : v.Kept delay) (moves : List Move) : (v.play moves).Kept delay := by
  induction moves generalizing v with
  | nil => exact h
  | cons m moves ih => exact ih (h.move m)

end Kept

/-! ## Waits that are not ended -/

theorem move_of_not_sets {v : Vigil} {m : Move} (hm : m.sets = false) :
    ended (v.move m).log = v.now :: ended v.log ∨
      ended (v.move m).log = ended v.log ∧ (v.move m).timer = v.timer := by
  cases m with
  | pass time => exact .inr ⟨rfl, rfl⟩
  | arm | cancel => cases hm
  | look =>
    rw [move]
    by_cases hdue : v.timer.due v.now = true
    · rw [look_of_due hdue]
      exact .inl rfl
    · rw [look_of_not_due hdue]
      exact .inr ⟨rfl, rfl⟩
  | giveUp => exact .inr ⟨ended_giveUp v, timer_giveUp v⟩

theorem play_of_not_sets {v : Vigil} {moves : List Move} (hm : ∀ m ∈ moves, m.sets = false) :
    (ended v.log).length < (ended (v.play moves).log).length ∨
      ended (v.play moves).log = ended v.log ∧ (v.play moves).timer = v.timer := by
  induction moves generalizing v with
  | nil => exact .inr ⟨rfl, rfl⟩
  | cons m moves ih =>
    obtain ⟨hfirst, hrest⟩ := List.forall_mem_cons.mp hm
    have hplay : v.play (m :: moves) = (v.move m).play moves := rfl
    rw [hplay]
    rcases move_of_not_sets (v := v) hfirst with hended | ⟨hended, htimer⟩
    -- A wait that is ended stays in the log.
    · have hlength : (ended (v.move m).log).length = (ended v.log).length + 1 := by
        rw [hended, List.length_cons]
      rcases ih (v := v.move m) hrest with hmore | ⟨hsame, _⟩
      · omega
      · rw [hsame]
        omega
    · rw [← hended, ← htimer]
      exact ih hrest

/-- How a timer goes off. -/
structure KeepsTime (delay : Duration) (v : Vigil) : Prop where
  /-- The deadline is that of the last setting, and there is none where that no longer counts. -/
  deadline : v.timer.deadline = (setAt? v.log).map delay.alarm
  armed : v.timer.armed = true ↔ ∃ deadline, v.timer.deadline = some deadline
  /-- A look ends the wait if the deadline has come, and only then. -/
  ends : v.look.log = .fired v.now :: v.log ↔
    ∃ since, setAt? v.log = some since ∧ delay.alarm since ≤ v.now
  fired : ∀ newer older now, v.log = newer ++ .fired now :: older →
    ∃ since, setAt? older = some since ∧ delay.alarm since ≤ now
  /-- A timer that was cancelled or has gone off ends no wait until it is set again. -/
  rests : ∀ newer older m, v.log = newer ++ m :: older → m.disarms = true →
    (∀ t, .armed t ∉ newer) → ∀ t, .fired t ∉ newer
  /-- Between two waits that are ended the timer is set. -/
  once : ∀ newer between older now later,
    v.log = newer ++ .fired later :: (between ++ .fired now :: older) → ∃ t, .armed t ∈ between
  /-- Waits that are given up leave the timer as it was, however often they were looked at. -/
  untouched : ∀ moves, (∀ m ∈ moves, m.sets = false) →
    ended (v.play moves).log = ended v.log → (v.play moves).timer = v.timer
  /-- A new deadline takes the place of an old one. -/
  rearmed : (v.move .arm).timer.deadline = some (delay.alarm v.now)

theorem Kept.keepsTime {delay : Duration} {v : Vigil} (h : v.Kept delay) :
    v.KeepsTime delay where
  deadline := h.deadline
  armed := Option.isSome_iff_exists
  ends := by
    rw [← h.due_iff]
    constructor
    · intro hlog
      apply Classical.byContradiction
      intro hdue
      rw [look_of_not_due hdue] at hlog
      cases hlog
    · intro hdue
      rw [look_of_due hdue]
  fired := by
    intro newer older now hlog
    exact Told.setAt_of_fired (hlog ▸ h.told)
  rests := by
    intro newer older m hlog hm hnone t ht
    obtain ⟨t', ht'⟩ := Told.armed_of_fired (hlog ▸ h.told) hm ht
    exact hnone t' ht'
  once := by
    intro newer between older now later hlog
    have htold : Told delay (.fired later :: between ++ .fired now :: older) :=
      Told.of_append (hlog ▸ h.told)
    obtain ⟨t, ht⟩ := htold.armed_of_fired rfl List.mem_cons_self
    rcases List.mem_cons.mp ht with heq | ht
    · cases heq
    · exact ⟨t, ht⟩
  untouched := by
    intro moves hm hended
    rcases play_of_not_sets (v := v) hm with hmore | ⟨_, htimer⟩
    · rw [hended] at hmore
      exact absurd hmore (Nat.lt_irrefl _)
    · exact htimer
  rearmed := by
    rw [← h.fixed]
    rfl

end Vigil

/-! ## Rehearsals -/

namespace Rehearsal

open Vigil

def TimerReport.ended? (r : TimerReport) : Option Nat :=
  if r.fired = some true then some r.now else none

namespace TimerBench

variable {b : TimerBench} {v : Vigil} {delay : Duration}

def run (b : TimerBench) (script : List TimerStep) : TimerBench :=
  script.foldl (fun b s => (b.take s).2) b

structure Shows (b : TimerBench) (v : Vigil) : Prop where
  now : v.now = b.now
  timer : v.timer = b.timer

theorem Shows.pass (h : b.Shows v) {later : Nat} (hl : b.now ≤ later) :
    ({ b with now := later } : TimerBench).Shows (v.move (.pass (later - b.now))) := by
  refine ⟨?_, h.timer⟩
  have hnow := h.now
  simp only [move]
  omega

theorem fired_wait_iff {deadline : Nat} (hd : b.timer.deadline = some deadline) (limit : Nat) :
    (b.wait limit).1 = true ↔ max b.now (Instant.ceilMilli deadline) ≤ limit := by
  unfold wait
  rw [hd]
  simp only
  split <;> simp_all

theorem wait_of_fired {deadline limit : Nat} (hd : b.timer.deadline = some deadline)
    (h : (b.wait limit).1 = true) : (b.wait limit).2 =
      ⟨max b.now (Instant.ceilMilli deadline), b.timer.cancel⟩ := by
  rw [fired_wait_iff hd] at h
  unfold wait
  rw [hd]
  simp only [if_pos h]

theorem wait_of_not_fired {limit : Nat} (h : (b.wait limit).1 = false) :
    (b.wait limit).2 = { b with now := limit } := by
  unfold wait at h ⊢
  split at h
  · rfl
  · simp only at h ⊢
    split at h
    · cases h
    · rename_i hlate
      rw [if_neg hlate]

theorem wait_shows (h : b.Shows v) {limit : Nat} (hl : b.now ≤ limit) :
    ∃ moves, (b.wait limit).2.Shows (v.play moves) ∧ ended (v.play moves).log =
      (if (b.wait limit).1 then [(b.wait limit).2.now] else []) ++ ended v.log := by
  cases hfired : (b.wait limit).1 with
  | false =>
    rw [wait_of_not_fired hfired]
    exact ⟨[.pass (limit - b.now)], h.pass hl, rfl⟩
  | true =>
    cases hd : b.timer.deadline with
    | none =>
      unfold wait at hfired
      rw [hd] at hfired
      cases hfired
    | some deadline =>
      rw [wait_of_fired hd hfired]
      -- Looks before that time would be in vain.
      generalize hdue : max b.now (Instant.ceilMilli deadline) = due
      have hlater : b.now ≤ due := by omega
      have hpass := h.pass hlater
      have htimer : v.timer.due (v.move (.pass (due - b.now))).now = true := by
        have hle := Instant.le_ceilMilli deadline
        rw [h.timer, hpass.now, ReconnectTimer.due_iff hd]
        simp only
        omega
      have hplay : v.play [.pass (due - b.now), .look] =
          (v.move (.pass (due - b.now))).look := rfl
      refine ⟨[.pass (due - b.now), .look], ?_, ?_⟩
      · rw [hplay, look_of_due htimer]
        exact ⟨hpass.now, congrArg ReconnectTimer.cancel h.timer⟩
      · rw [hplay, look_of_due htimer, hpass.now]
        rfl

theorem now_giveUp (v : Vigil) : v.giveUp.now = v.now := by
  unfold giveUp
  split <;> rfl

theorem take_shows (h : b.Shows v) (s : TimerStep) :
    ∃ moves, (b.take s).2.Shows (v.play moves) ∧ ended (v.play moves).log =
      (b.step s).1.ended?.toList ++ ended v.log := by
  cases s with
  | arm =>
    refine ⟨[.arm], ⟨?_, ?_⟩, ended_giveUp v⟩
    · exact (now_giveUp v).trans h.now
    · have htimer : (v.play [.arm]).timer = v.timer.arm v.now := rfl
      rw [htimer, h.timer, h.now]
      rfl
  | cancel =>
    refine ⟨[.cancel], ⟨?_, ?_⟩, ended_giveUp v⟩
    · exact (now_giveUp v).trans h.now
    · exact congrArg ReconnectTimer.cancel h.timer
  | sleep limit =>
    have hl : b.now ≤ limit.alarm b.now := Nat.le_add_right _ _
    exact ⟨[.pass (limit.alarm b.now - b.now)], h.pass hl, rfl⟩
  | wait limit =>
    have hl : b.now ≤ limit.after b.now := Nat.le_add_right _ _
    obtain ⟨moves, hshows, hended⟩ := wait_shows h hl
    refine ⟨moves, hshows, hended.trans ?_⟩
    simp only [step, take, TimerReport.ended?]
    split <;> simp_all
  | rest => exact ⟨[], h, rfl⟩

theorem play_shows (h : b.Shows v) (script : List TimerStep) :
    ∃ moves, (b.run script).Shows (v.play moves) ∧ ended (v.play moves).log =
      (((play step b script).filterMap TimerReport.ended?).reverse ++ ended v.log) := by
  induction script generalizing b v with
  | nil => exact ⟨[], h, rfl⟩
  | cons s script ih =>
    obtain ⟨moves, hshows, hended⟩ := take_shows h s
    obtain ⟨moves', hshows', hended'⟩ := ih hshows
    have hplay : play step b (s :: script) =
        (b.step s).1 :: play step (b.take s).2 script := rfl
    refine ⟨moves ++ moves', ?_, ?_⟩
    · rw [play_append]
      exact hshows'
    · rw [play_append, hended', hended, hplay, List.filterMap_cons]
      cases (b.step s).1.ended? <;> simp

structure Rehearses (delay : Duration) (script : List TimerStep) (v : Vigil) : Prop where
  shows : ((create delay).run script).Shows v
  ended : (play step (create delay) script).filterMap TimerReport.ended? = (ended v.log).reverse
  /-- The next wait is ended, at its deadline or at once, if it is not given up before. -/
  wait : ∀ limit, (((create delay).run script).wait limit).1 = true ↔
    ∃ since, setAt? v.log = some since ∧
      max v.now (Instant.ceilMilli (delay.alarm since)) ≤ limit

theorem exists_rehearses (delay : Duration) (script : List TimerStep) :
    ∃ moves, Rehearses delay script ((Vigil.start delay).play moves) := by
  have hstart : (create delay).Shows (Vigil.start delay) := ⟨rfl, rfl⟩
  obtain ⟨moves, hshows, hended⟩ := play_shows hstart script
  have hkept := (Kept.start delay).play moves
  refine ⟨moves, hshows, ?_, ?_⟩
  · have hnone : Vigil.ended (Vigil.start delay).log = [] := rfl
    rw [hended, hnone, List.append_nil, List.reverse_reverse]
  · intro limit
    have hdeadline := hkept.deadline
    rw [hshows.timer] at hdeadline
    rw [hshows.now]
    cases hs : setAt? ((Vigil.start delay).play moves).log with
    | none =>
      rw [hs] at hdeadline
      simp [wait, hdeadline]
    | some since =>
      rw [hs] at hdeadline
      simp [fired_wait_iff hdeadline]

end TimerBench

end Rehearsal

open Rehearsal in
/-- However a timer is set, cancelled and waited for, and whenever waits are given up, it goes off
once at most for each time it is set, and not before the delay, or the longest time if the delay is
longer. Rehearsals are such uses of a timer. -/
theorem timer_keeps_time (delay : Duration) :
    (∀ moves, ((Vigil.start delay).play moves).KeepsTime delay) ∧
      ∀ script, ∃ moves, TimerBench.Rehearses delay script ((Vigil.start delay).play moves) := by
  constructor
  · intro moves
    exact ((Vigil.Kept.start delay).play moves).keepsTime
  · intro script
    exact TimerBench.exists_rehearses delay script

/-- A delay of a millisecond more than thirty years is not waited for to its end. -/
example : ((ReconnectTimer.create (.ofMillis 946080000001)).arm 0).due
    (946080000000 * nanosPerMilli) = true := by decide

end LivePlayback
