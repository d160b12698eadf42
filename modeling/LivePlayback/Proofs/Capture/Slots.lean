import LivePlayback.Proofs.Capture.Playback
import LivePlayback.Proofs.Latest.Spacing

/-!
# Slots that are spent on frames

A replay with a pacer shows slots that it takes and frames that it hands out. They take turns, and
slots are an interval apart, so no frame comes earlier than the slots before it allow.
-/

namespace LivePlayback
set_option autoImplicit false

open CaptureFile (Reading)

namespace Pacer

/-- The next slot is set as the period says. No slot is set for later than the longest time, so a
longer period does not keep its rhythm. -/
def KeepsRhythm (period : Nat) : Prop :=
  ∀ slot now, slot ≤ now → (⟨period, slot⟩ : Pacer).nextSlot now =
    if now ≤ slot + grace then slot + period else now + period

theorem keepsRhythm_iff {period : Nat} :
    KeepsRhythm period ↔ period ≤ Duration.longest.nanos := by
  constructor
  · intro h
    have hfirst := h 0 0 (Nat.le_refl 0)
    rw [if_pos (Nat.zero_le _), Nat.zero_add] at hfirst
    unfold nextSlot Duration.after at hfirst
    omega
  · intro h slot now hle
    unfold nextSlot Duration.after
    split <;> simp only <;> omega

theorem KeepsRhythm.interval_eq {p : Pacer} (h : KeepsRhythm p.period) : p.interval = p.period :=
  Nat.min_eq_left (keepsRhythm_iff.mp h)

/-- It is not too early for what comes after `n` slots. -/
def Allows (p : Pacer) (n now : Nat) : Prop :=
  p.slot + n * p.interval ≤ now ∧ (KeepsRhythm p.period → p.slot + n * p.period ≤ now)

theorem allows_of_le {p : Pacer} {n now : Nat} (h : p.slot + n * p.interval ≤ now) :
    p.Allows n now := by
  refine ⟨h, fun hrhythm => ?_⟩
  rw [hrhythm.interval_eq] at h
  exact h

theorem slot_lt_nextSlot {p : Pacer} {now : Nat} (hp : 0 < p.period) (h : p.slot ≤ now) :
    p.slot < p.nextSlot now := by
  have hlongest : 0 < Duration.longest.nanos := by decide
  have hstep := slot_add_interval_le h
  unfold interval at hstep
  omega

end Pacer

namespace Replay

inductive Mark where
  | slot (due now : Nat)
  | received (r : Reception) (now : Nat)

namespace Mark

def isSlot : Mark → Bool
  | .slot _ _ => true
  | .received _ _ => false

def isFrame : Mark → Bool
  | .slot _ _ => false
  | .received r _ => r.frame?.isSome

def reception? : Mark → Option Reception
  | .slot _ _ => none
  | .received r _ => some r

end Mark

def slots (marks : List Mark) : Nat := marks.countP Mark.isSlot

def frames (marks : List Mark) : Nat := marks.countP Mark.isFrame

/-- When the next slot is, by those that were taken. -/
def slotAfter (p : Pacer) : List Mark → Nat
  | [] => p.slot
  | .slot due now :: _ => ({ p with slot := due } : Pacer).nextSlot now
  | .received _ _ :: marks => slotAfter p marks

def Step.reception? : Step → Option Reception
  | .done r => some r
  | .waitSlot _ | .wantsPortion _ => none

/-- A slot was taken if the pacer has another one now. -/
def slotMark (now : Nat) (before after : Option Pacer) : List Mark :=
  match before with
  | none => []
  | some p => if after = before then [] else [.slot p.slot now]

/-- What is seen when a replay comes to a step, newest first. -/
def seen (r : Replay) (now : Nat) (out : Step × Replay) : List Mark :=
  (out.1.reception?.map (Mark.received · now)).toList ++ slotMark now r.pacer out.2.pacer

section

variable {marks : List Mark} {due now : Nat} {r : Reception}

@[simp] theorem slots_slot : slots (.slot due now :: marks) = slots marks + 1 :=
  List.countP_cons_of_pos rfl

@[simp] theorem slots_received : slots (.received r now :: marks) = slots marks :=
  List.countP_cons_of_neg (by simp [Mark.isSlot])

@[simp] theorem frames_slot : frames (.slot due now :: marks) = frames marks :=
  List.countP_cons_of_neg (by simp [Mark.isFrame])

@[simp] theorem frames_received : frames (.received r now :: marks) =
    frames marks + r.frame?.isSome.toNat := by
  unfold frames
  rw [List.countP_cons]
  cases hf : r.frame? <;> simp [Mark.isFrame, hf]

theorem slotMark_self (now : Nat) (pacer : Option Pacer) : slotMark now pacer pacer = [] := by
  cases pacer <;> simp [slotMark]

end

/-! ## One slot for each frame -/

/-- What a replay with this pacer has shown by now, newest first: which slot is next, and whether
one is spent on the frame that comes next. -/
inductive Told (p : Pacer) : Nat → Nat → Bool → List Mark → Prop where
  | start : Told p p.slot p.slot false []
  | pass {now slot : Nat} {paced : Bool} {marks : List Mark} (h : Told p now slot paced marks)
      {later : Nat} (hl : now ≤ later) : Told p later slot paced marks
  | slot {now slot : Nat} {marks : List Mark} (h : Told p now slot false marks) (hs : slot ≤ now) :
      Told p now (({ p with slot } : Pacer).nextSlot now) true (.slot slot now :: marks)
  | frame {now slot : Nat} {marks : List Mark} (h : Told p now slot true marks) (f : ByteArray) :
      Told p now slot false (.received (.frame f) now :: marks)
  | other {now slot : Nat} {paced : Bool} {marks : List Mark} (h : Told p now slot paced marks)
      {r : Reception} (hr : r.frame? = none) : Told p now slot paced (.received r now :: marks)

/-- What holds of a mark that comes after others. A slot is taken when each one before it was spent
on a frame, and a frame comes when just one slot more than frames was taken. -/
def Mark.Timely (p : Pacer) (older : List Mark) : Mark → Prop
  | .slot due now =>
    slots older = frames older ∧ due = slotAfter p older ∧ due ≤ now ∧
      p.slot + frames older * p.interval ≤ due
  | .received r now =>
    r.frame?.isSome = true →
      slots older = frames older + 1 ∧ p.slot + frames older * p.interval ≤ now

theorem Mark.Timely.of_cons {p : Pacer} {m m' : Mark} {marks newer older : List Mark}
    (hm : m.Timely p marks)
    (ih : ∀ {newer older : List Mark} {m' : Mark}, marks = newer ++ m' :: older →
      m'.Timely p older)
    (heq : m :: marks = newer ++ m' :: older) : m'.Timely p older := by
  rcases List.cons_eq_append_iff.mp heq with ⟨_, hnewest⟩ | ⟨newer, _, hrest⟩
  · cases hnewest
    exact hm
  · exact ih hrest

namespace Told

variable {p : Pacer} {now slot : Nat} {paced : Bool} {marks : List Mark}

theorem slots_eq (h : Told p now slot paced marks) :
    slots marks = frames marks + paced.toNat := by
  induction h with
  | start => rfl
  | pass _ _ ih => exact ih
  | slot _ _ ih => simpa using ih
  | frame _ f ih => simpa [Reception.frame?] using ih
  | other _ hr ih => simpa [hr] using ih

theorem slot_eq (h : Told p now slot paced marks) : slot = slotAfter p marks := by
  induction h with
  | start => rfl
  | pass _ _ ih => exact ih
  | slot => rfl
  | frame _ _ ih => exact ih
  | other _ _ ih => exact ih

/-- The next slot is as many intervals away from the first one as slots were taken. -/
theorem slot_bound (h : Told p now slot paced marks) :
    p.slot + slots marks * p.interval ≤ slot := by
  induction h with
  | start => simp [slots]
  | pass _ _ ih => exact ih
  | @slot now slot marks _ hs ih =>
    have hnext := Pacer.slot_add_interval_le (p := { p with slot }) hs
    have hinterval : ({ p with slot } : Pacer).interval = p.interval := rfl
    rw [hinterval] at hnext
    rw [slots_slot, Nat.succ_mul]
    simp only at hnext
    omega
  | frame _ f ih => simpa using ih
  | other _ hr ih => simpa using ih

/-- A slot is not taken before its time. -/
theorem reached (h : Told p now slot paced marks) {n : Nat} (hn : n < slots marks) :
    p.slot + n * p.interval ≤ now := by
  induction h with
  | start => exact absurd hn (Nat.not_lt_zero n)
  | pass _ hl ih => exact Nat.le_trans (ih hn) hl
  | @slot now slot marks h hs ih =>
    have hbound := h.slot_bound
    have hle : n * p.interval ≤ slots marks * p.interval := by
      apply Nat.mul_le_mul_right
      rw [slots_slot] at hn
      exact Nat.le_of_lt_succ hn
    omega
  | frame _ f ih => exact ih (by simpa using hn)
  | other _ hr ih => exact ih (by simpa using hn)

theorem timely (h : Told p now slot paced marks) {newer older : List Mark} {m : Mark}
    (hm : marks = newer ++ m :: older) : m.Timely p older := by
  induction h generalizing newer older m with
  | start => cases newer <;> cases hm
  | pass _ _ ih => exact ih hm
  | @slot now slot marks h hs ih =>
    have heq := h.slots_eq
    have hbound := h.slot_bound
    rw [heq] at hbound
    have hnewest : (Mark.slot slot now).Timely p marks := ⟨heq, h.slot_eq, hs, hbound⟩
    exact hnewest.of_cons ih hm
  | @frame now slot marks h f ih =>
    have heq := h.slots_eq
    have hnewest : (Mark.received (.frame f) now).Timely p marks := by
      intro _
      refine ⟨heq, h.reached ?_⟩
      rw [heq]
      exact Nat.lt_succ_self _
    exact hnewest.of_cons ih hm
  | @other now slot paced marks h r hr ih =>
    have hnewest : (Mark.received r now).Timely p marks := by
      intro hframe
      rw [hr] at hframe
      cases hframe
    exact hnewest.of_cons ih hm

end Told

/-! ## What requests show -/

theorem takeFrame_pacer (r : Replay) : r.takeFrame.2.pacer = r.pacer := by
  unfold takeFrame
  split <;> rfl

theorem seen_takeFrame (r r' : Replay) (now : Nat) : r.seen now r'.takeFrame =
    r'.seen now r'.takeFrame ++ slotMark now r.pacer r'.pacer := by
  unfold seen
  rw [takeFrame_pacer, slotMark_self, List.append_nil]

theorem paced_of_takeFrame {r : Replay} {needed : Nat} (h : r.paced = true)
    (hn : r.takeFrame.1 = .wantsPortion needed) : r.takeFrame.2.paced = true := by
  rcases Reading.takeFrame_cases r with ⟨x, r', htake⟩ | ⟨needed, htake⟩
  · rw [htake] at hn
    cases hn
  · rw [htake]
    exact h

theorem takeFrame_ne_waitSlot {r : Replay} {slot : Nat} : r.takeFrame.1 ≠ .waitSlot slot := by
  unfold takeFrame
  split <;> exact Step.noConfusion

theorem supply_ne_waitSlot {r : Replay} {portion : Portion} {slot : Nat} :
    (r.supply portion).1 ≠ .waitSlot slot := by
  cases portion with
  | bytes b => exact takeFrame_ne_waitSlot
  | endOfFile =>
    unfold supply
    simp only
    split <;> exact Step.noConfusion
  | failed why => exact Step.noConfusion

/-- A request has a slot when it waits for more of the file. -/
theorem paced_of_poll {r : Replay} {now needed : Nat}
    (hn : (r.poll now).1 = .wantsPortion needed) : (r.poll now).2.paced = true := by
  unfold poll at hn ⊢
  split at hn
  · cases hn
  · rename_i hopen
    rw [if_neg hopen]
    cases hs : r.takeSlot now with
    | error slot =>
      rw [hs] at hn
      cases hn
    | ok r' =>
      rw [hs] at hn
      obtain ⟨pacer, rfl⟩ := eq_of_takeSlot_eq_ok hs
      exact paced_of_takeFrame rfl hn

theorem paced_of_supply {r : Replay} {portion : Portion} {needed : Nat} (h : r.paced = true)
    (hn : (r.supply portion).1 = .wantsPortion needed) : (r.supply portion).2.paced = true := by
  cases portion with
  | bytes b => exact paced_of_takeFrame (r := { r with buffer := r.buffer ++ b }) h hn
  | endOfFile =>
    unfold supply at hn
    simp only at hn
    split at hn <;> cases hn
  | failed why => cases hn

theorem receptions_seen (r : Replay) (now : Nat) (out : Step × Replay) :
    (r.seen now out).filterMap Mark.reception? = out.1.reception?.toList := by
  have hslot (q q' : Option Pacer) : (slotMark now q q').filterMap Mark.reception? = [] := by
    cases q with
    | none => rfl
    | some p =>
      simp only [slotMark]
      split <;> rfl
  unfold seen
  rw [List.filterMap_append, hslot, List.append_nil]
  cases out.1.reception? <;> rfl

theorem frames_eq (marks : List Mark) :
    frames marks = (marks.filterMap Mark.reception?).countP (·.frame?.isSome) := by
  rw [List.countP_filterMap]
  unfold frames
  congr 1
  funext m
  cases m <;> rfl

theorem takeSlot_cases {r : Replay} {p : Pacer} (hp : r.pacer = some p) (now : Nat) :
    r.paced = true ∧ r.takeSlot now = .ok r ∨
      r.paced = false ∧ p.slot ≤ now ∧ r.takeSlot now =
        .ok { r with pacer := some { p with slot := p.nextSlot now }, paced := true } ∨
      now < p.slot ∧ r.takeSlot now = .error p.slot := by
  unfold takeSlot
  by_cases hpaced : r.paced = true
  · rw [if_pos hpaced]
    exact .inl ⟨hpaced, rfl⟩
  · rw [if_neg hpaced, hp]
    by_cases hle : p.slot ≤ now
    · have htake : p.take? now = some { p with slot := p.nextSlot now } := if_pos hle
      exact .inr (.inl ⟨eq_false_of_ne_true hpaced, hle, by simp only [htake]⟩)
    · have htake : p.take? now = none := if_neg hle
      exact .inr (.inr ⟨Nat.lt_of_not_le hle, by simp only [htake]⟩)

/-- What a replay has shown by now. -/
def Paces (p : Pacer) (now : Nat) (marks : List Mark) (r : Replay) : Prop :=
  ∃ slot, r.pacer = some { p with slot } ∧ Told p now slot r.paced marks

namespace Paces

variable {p : Pacer} {now : Nat} {marks : List Mark} {r r' : Replay}

theorem start (p : Pacer) : (ofPacer (some p)).Paces p p.slot [] := ⟨p.slot, rfl, .start⟩

theorem pass (h : r.Paces p now marks) {later : Nat} (hl : now ≤ later) :
    r.Paces p later marks := by
  obtain ⟨slot, hpacer, htold⟩ := h
  exact ⟨slot, hpacer, htold.pass hl⟩

theorem takeSlot (h : r.Paces p now marks) (hp : 0 < p.period) (hs : r.takeSlot now = .ok r') :
    r'.paced = true ∧ r'.Paces p now (slotMark now r.pacer r'.pacer ++ marks) := by
  obtain ⟨slot, hpacer, htold⟩ := h
  rcases takeSlot_cases hpacer now with ⟨hpaced, htake⟩ | ⟨hpaced, hle, htake⟩ | ⟨_, htake⟩
  · rw [htake] at hs
    cases hs
    rw [slotMark_self]
    exact ⟨hpaced, slot, hpacer, htold⟩
  · rw [htake] at hs
    cases hs
    have hlt := Pacer.slot_lt_nextSlot (p := { p with slot }) hp hle
    have hne : (some { p with slot := ({ p with slot } : Pacer).nextSlot now } : Option Pacer) ≠
        some { p with slot } := by
      intro heq
      have hslot := congrArg Pacer.slot (Option.some.inj heq)
      simp only at hslot hlt
      omega
    rw [hpaced] at htold
    rw [hpacer, slotMark, if_neg hne]
    exact ⟨rfl, _, rfl, htold.slot hle⟩
  · rw [htake] at hs
    cases hs

/-- Frames are handed out by a replay that has spent a slot on them. -/
theorem takeFrame (h : r.Paces p now marks) (hp : r.paced = true) :
    r.takeFrame.2.Paces p now (r.seen now r.takeFrame ++ marks) := by
  obtain ⟨slot, hpacer, htold⟩ := h
  unfold Replay.takeFrame
  split
  · rename_i f rest _
    rw [hp] at htold
    simp only [seen, slotMark_self]
    exact ⟨slot, hpacer, htold.frame f⟩
  · simp only [seen, slotMark_self]
    exact ⟨slot, hpacer, htold.other rfl⟩
  · simp only [seen, slotMark_self]
    exact ⟨slot, hpacer, htold⟩

theorem other (h : r.Paces p now marks) {x : Reception} (hx : x.frame? = none) :
    r.Paces p now (r.seen now (.done x, r) ++ marks) := by
  obtain ⟨slot, hpacer, htold⟩ := h
  simp only [seen, slotMark_self]
  exact ⟨slot, hpacer, htold.other hx⟩

theorem lt_of_waitSlot (h : r.Paces p now marks) {due : Nat}
    (hw : (r.poll now).1 = .waitSlot due) : now < due := by
  obtain ⟨slot, hpacer, _⟩ := h
  unfold Replay.poll at hw
  split at hw
  · cases hw
  · rcases takeSlot_cases hpacer now with ⟨_, htake⟩ | ⟨_, _, htake⟩ | ⟨hlt, htake⟩
    · rw [htake] at hw
      exact absurd hw takeFrame_ne_waitSlot
    · rw [htake] at hw
      exact absurd hw takeFrame_ne_waitSlot
    · rw [htake] at hw
      cases hw
      exact hlt

theorem poll (h : r.Paces p now marks) (hp : 0 < p.period) :
    (r.poll now).2.Paces p now (r.seen now (r.poll now) ++ marks) := by
  unfold Replay.poll
  split
  · exact h.other rfl
  · cases hs : r.takeSlot now with
    | error slot =>
      simp only [seen, slotMark_self]
      exact h
    | ok r' =>
      obtain ⟨hpaced, hpaces⟩ := h.takeSlot hp hs
      simp only
      rw [seen_takeFrame, List.append_assoc]
      exact hpaces.takeFrame hpaced

theorem supply (h : r.Paces p now marks) (hp : r.paced = true) (portion : Portion) :
    (r.supply portion).2.Paces p now (r.seen now (r.supply portion) ++ marks) := by
  cases portion with
  | bytes b =>
    have hmore : ({ r with buffer := r.buffer ++ b } : Replay).Paces p now marks := h
    exact hmore.takeFrame hp
  | endOfFile =>
    unfold Replay.supply
    simp only
    split
    · exact h.other rfl
    · exact h.other rfl
  | failed why => exact h.other rfl

end Paces

end Replay

end LivePlayback
