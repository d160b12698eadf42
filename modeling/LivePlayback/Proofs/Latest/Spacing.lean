import LivePlayback.Proofs.Latest.Content

/-!
# How far items are apart

A slot that is taken late by no more than the grace does not move the next one, so the item in that
slot may be given as much earlier than a period after the one before. The lead is lost again with
the next item: over any number of items it is never more than the grace.
-/

namespace LivePlayback
set_option autoImplicit false

variable {α : Type}

namespace Pacer

variable {p : Pacer} {now : Nat}

/-- The time between two slots, which is never longer than the longest time. -/
def interval (p : Pacer) : Nat := min p.period Duration.longest.nanos

/-- By how much a slot that is taken now is taken late without moving the next one. -/
def lead (p : Pacer) (now : Nat) : Nat := if now ≤ p.slot + grace then now - p.slot else 0

theorem lead_le_grace : p.lead now ≤ grace := by
  unfold lead
  split <;> omega

theorem slot_add_interval_le (h : p.slot ≤ now) : p.slot + p.interval ≤ p.nextSlot now := by
  unfold nextSlot interval Duration.after
  split <;> omega

theorem now_add_interval_le (h : p.slot ≤ now) :
    now + p.interval ≤ p.nextSlot now + p.lead now := by
  unfold nextSlot interval lead Duration.after
  split <;> omega

end Pacer

namespace Thinning

variable (t : Thinning α)

def interval : Nat := min t.period Duration.longest.nanos

/-- How many items are given before the `k`-th asking. -/
def count : Nat → Nat
  | 0 => 0
  | k + 1 => if (t.answer k).item?.isSome then count k + 1 else count k

variable {t} {j k n : Nat} {a b : α}

theorem period_pacer (t : Thinning α) (k : Nat) : (t.pacer k).period = t.period := by
  induction k with
  | zero =>
    have hstarted := t.started
    rw [Latest.start?, Option.map_eq_some_iff] at hstarted
    obtain ⟨p, hp, hfresh⟩ := hstarted
    change t.fresh.pacer.period = t.period
    rw [← hfresh]
    unfold Pacer.start? at hp
    split at hp
    · cases hp
    · cases hp
      rfl
  | succ k ih =>
    have hemits := t.emits k
    rw [← t.filled_pacer] at ih
    rw [pacer]
    generalize t.latest (k + 1) = l at hemits ⊢
    generalize t.answer k = answer at hemits
    cases hemits <;> exact ih

theorem interval_pacer (t : Thinning α) (k : Nat) : (t.pacer k).interval = t.interval := by
  rw [Pacer.interval, period_pacer, interval]

/-- As long as its source goes on, a thinned source gives an item for a slot. -/
theorem slot_of_item (h : t.answer k = .item a) (hk : ¬ t.EndedAt k) :
    (t.pacer k).slot ≤ t.asks k ∧ (t.pacer (k + 1)).slot = (t.pacer k).nextSlot (t.asks k) := by
  have hopen : (t.filled k).finished = false := by
    simpa using mt (t.holds k).finished.mp hk
  have hemits := t.emits k
  rw [h] at hemits
  rw [← t.filled_pacer k, pacer]
  generalize t.latest (k + 1) = l at hemits ⊢
  cases hemits with
  | inSlot _ _ hs => exact ⟨hs, rfl⟩
  | flush _ hf => simp [hf] at hopen

theorem slot_of_no_item (h : (t.answer k).item? = none) : t.pacer (k + 1) = t.pacer k := by
  have hemits := t.emits k
  rw [← t.filled_pacer k, pacer]
  generalize t.latest (k + 1) = l at hemits ⊢
  generalize t.answer k = answer at hemits h
  cases hemits with
  | idle | closed | wait => rfl
  | inSlot | flush => cases h

theorem count_of_item (h : t.answer k = .item a) : t.count (k + 1) = t.count k + 1 := by
  rw [count, h]
  rfl

theorem count_of_no_item (h : (t.answer k).item? = none) : t.count (k + 1) = t.count k := by
  rw [count, h]
  rfl

theorem count_le_succ (t : Thinning α) (k : Nat) : t.count k ≤ t.count (k + 1) := by
  rw [count]
  split
  · exact Nat.le_succ _
  · exact Nat.le_refl _

theorem count_lt_of_item (h : t.answer j = .item a) (hjk : j < k) : t.count j < t.count k := by
  have hle : t.count (j + 1) ≤ t.count k := monotone_nat_of_le_succ t.count_le_succ hjk
  rw [count_of_item h] at hle
  exact hle

theorem slot_step (hk : ¬ t.EndedAt k) :
    (t.pacer k).slot + t.count (k + 1) * t.interval ≤
      (t.pacer (k + 1)).slot + t.count k * t.interval := by
  cases h : t.answer k with
  | item a =>
    obtain ⟨htaken, hnext⟩ := slot_of_item h hk
    have hslot := Pacer.slot_add_interval_le htaken
    rw [interval_pacer] at hslot
    rw [count_of_item h, hnext, Nat.succ_mul]
    omega
  | ended | pending =>
    have hnone : (t.answer k).item? = none := by rw [h]; rfl
    rw [count_of_no_item hnone, slot_of_no_item hnone]

/-- Each item moves the slot on by an interval at least. -/
theorem slots_spaced (hjk : j ≤ k) (ho : ∀ i, i < k → ¬ t.EndedAt i) :
    (t.pacer j).slot + t.count k * t.interval ≤ (t.pacer k).slot + t.count j * t.interval := by
  induction k, hjk using Nat.le_induction with
  | base => exact Nat.le_refl _
  | succ k _ ih =>
    have hslots := ih fun i hi => ho i (Nat.lt_succ_of_lt hi)
    have hstep := slot_step (ho k (Nat.lt_succ_self k))
    omega

theorem spaced_of_items (ha : t.answer j = .item a) (hb : t.answer k = .item b) (hjk : j < k)
    (hk : ¬ t.EndedAt k) (hn : t.count k = t.count j + n) :
    t.asks j + n * t.interval ≤ t.asks k + (t.pacer j).lead (t.asks j) := by
  -- An item after the end would be the end itself, so all items up to this one had a slot.
  have hopen : ∀ i, i < k → ¬ t.EndedAt i := by
    intro i hi hend
    cases hb.symm.trans (ended_of_ended hend hi)
  obtain ⟨htaken, hnext⟩ := slot_of_item ha (hopen j hjk)
  have hfirst := Pacer.now_add_interval_le htaken
  have hslots := slots_spaced (Nat.succ_le_of_lt hjk) hopen
  have hlast := (slot_of_item hb hk).1
  rw [interval_pacer] at hfirst
  rw [hnext, count_of_item ha, hn, Nat.add_mul, Nat.succ_mul] at hslots
  omega

/-- How the items that a thinned source gives before its source has ended are spaced. -/
structure KeepsPace (t : Thinning α) : Prop where
  /-- From one item to the `n`-th one after it there are `n` intervals, less a lead. -/
  spaced : ∀ j k n a b, t.answer j = .item a → t.answer k = .item b → j < k → ¬ t.EndedAt k →
    t.count k = t.count j + n →
      t.asks j + n * t.interval ≤ t.asks k + (t.pacer j).lead (t.asks j)
  bounded : ∀ j, (t.pacer j).lead (t.asks j) ≤ Pacer.grace
  /-- Two items are closer than an interval only if the first one was late for its slot, by no more
  than the grace, and the second one has the slot an interval after that. -/
  close : ∀ j k a b, t.answer j = .item a → t.answer k = .item b → j < k → ¬ t.EndedAt k →
    t.asks k < t.asks j + t.interval →
      (t.pacer j).slot < t.asks j ∧ t.asks j ≤ (t.pacer j).slot + Pacer.grace ∧
        (t.pacer j).slot + t.interval ≤ t.asks k

theorem keeps_pace (t : Thinning α) : t.KeepsPace where
  spaced := by
    intro j k n a b ha hb hjk hk hn
    exact spaced_of_items ha hb hjk hk hn
  bounded := by
    intro j
    exact Pacer.lead_le_grace
  close := by
    intro j k a b ha hb hjk hk hclose
    have hlt := count_lt_of_item ha hjk
    have hspaced := spaced_of_items ha hb hjk hk (n := t.count k - t.count j) (by omega)
    have hone : t.interval ≤ (t.count k - t.count j) * t.interval :=
      Nat.le_mul_of_pos_left _ (Nat.sub_pos_of_lt hlt)
    have hlead : t.asks k < t.asks j + t.interval ∧
        t.asks j + t.interval ≤ t.asks k + (t.pacer j).lead (t.asks j) := ⟨hclose, by omega⟩
    unfold Pacer.lead at hlead
    split at hlead <;> omega

/-- A source that gives two items, of which the first one is asked for four milliseconds after its
slot, and the second one at once and again when its slot has come. -/
def lateStart : Thinning Nat where
  source :=
    { answer := fun n => if n = 0 then .item 1 else if n = 2 then .item 2 else .pending
      rests := fun n => ⟨n + 3, by omega, by simp [Poll.item?]⟩ }
  period := 100 * nanosPerMilli
  start := 0
  fresh := ⟨⟨100 * nanosPerMilli, 0⟩, none, false⟩
  started := rfl
  asks k := if k < 2 then 4 * nanosPerMilli else 100 * nanosPerMilli

theorem lateStart_gives_early : lateStart.answer 0 = .item 1 ∧ lateStart.answer 2 = .item 2 ∧
    lateStart.asks 0 + 96 * nanosPerMilli = lateStart.asks 2 ∧
    lateStart.interval = 100 * nanosPerMilli := by
  refine ⟨?_, ?_, by decide, by decide⟩
  · simp [lateStart, answer, filled, latest, taken, before, Source.drain, Latest.emit,
      Pacer.take?]
  · simp [lateStart, answer, filled, latest, taken, before, Source.drain, Latest.emit,
      Pacer.take?, Pacer.nextSlot, Pacer.grace, Duration.after, Duration.longest, nanosPerMilli,
      nanosPerSecond]

end Thinning

end LivePlayback
