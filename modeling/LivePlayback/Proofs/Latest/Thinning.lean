import LivePlayback.Latest
import Mathlib.Data.Nat.Find

/-!
# Thinning a source out

A source answers whenever it is asked. A thinned source that is asked asks it in turn, as long as it
gives items, and then gives out what it holds if there is a slot. Here the two are put together: a
source that may answer anything, a thinned source that may be asked at any times, and how far the
source has been asked by then.
-/

namespace LivePlayback
set_option autoImplicit false

variable {α : Type}

namespace Poll

def item? : Poll α → Option α
  | .item a => some a
  | .ended | .pending => none

def isEnd : Poll α → Bool
  | .ended => true
  | .item _ | .pending => false

end Poll

namespace Latest

/-- What a thinned source that has asked its source gives out, and what it is then. -/
inductive Emits (l : Latest α) (now : Nat) : Poll α → Latest α → Prop where
  | idle (hh : l.held = none) (hf : l.finished = false) : Emits l now .pending l
  | closed (hh : l.held = none) (hf : l.finished = true) : Emits l now .ended l
  | wait {a : α} (hh : l.held = some a) (hf : l.finished = false) (hs : now < l.pacer.slot) :
      Emits l now .pending l
  | inSlot {a : α} (hh : l.held = some a) (hf : l.finished = false) (hs : l.pacer.slot ≤ now) :
      Emits l now (.item a)
        { l with pacer := { l.pacer with slot := l.pacer.nextSlot now }, held := none }
  | flush {a : α} (hh : l.held = some a) (hf : l.finished = true) :
      Emits l now (.item a) { l with held := none }

theorem emits (l : Latest α) (now : Nat) : Emits l now (l.emit now).1 (l.emit now).2 := by
  cases hh : l.held with
  | none =>
    cases hf : l.finished with
    | false => simpa [emit, hh, hf] using (.idle hh hf : Emits l now _ _)
    | true => simpa [emit, hh, hf] using (.closed hh hf : Emits l now _ _)
  | some a =>
    cases hf : l.finished with
    | true => simpa [emit, hh, hf] using (.flush hh hf : Emits l now _ _)
    | false =>
      by_cases hs : l.pacer.slot ≤ now
      · simpa [emit, hh, hf, Pacer.take?, hs] using Emits.inSlot hh hf hs
      · simpa [emit, hh, hf, Pacer.take?, hs] using Emits.wait hh hf (Nat.lt_of_not_le hs)

end Latest

/-- A source by its answers, in the order in which it gives them. It never gives items for ever. -/
structure Source (α : Type) where
  answer : Nat → Poll α
  rests : ∀ n, ∃ k, n ≤ k ∧ (answer k).item?.isNone = true

namespace Source

variable (s : Source α)

/-- The first answer from the `n`-th on that is no item. -/
def lull (n : Nat) : Nat := Nat.find (s.rests n)

theorem le_lull (n : Nat) : n ≤ s.lull n := (Nat.find_spec (s.rests n)).1

theorem lull_answer (n : Nat) : (s.answer (s.lull n)).item? = none :=
  Option.isNone_iff_eq_none.mp (Nat.find_spec (s.rests n)).2

theorem lull_of_item {n : Nat} {a : α} (h : s.answer n = .item a) :
    s.lull n = s.lull (n + 1) := by
  have hne : s.lull n ≠ n := by
    intro heq
    have hnone := s.lull_answer n
    rw [heq, h] at hnone
    cases hnone
  have hlt : n + 1 ≤ s.lull n := Nat.lt_of_le_of_ne (s.le_lull n) hne.symm
  apply Nat.le_antisymm
  · apply Nat.find_min'
    have hspec := Nat.find_spec (s.rests (n + 1))
    exact ⟨Nat.le_of_succ_le hspec.1, hspec.2⟩
  · apply Nat.find_min'
    exact ⟨hlt, (Nat.find_spec (s.rests n)).2⟩

theorem lull_of_no_item {n : Nat} (h : (s.answer n).item? = none) : s.lull n = n := by
  apply Nat.le_antisymm
  · apply Nat.find_min'
    exact ⟨Nat.le_refl n, by simp [h]⟩
  · exact s.le_lull n

/-- Asks the source until it has nothing ready or has ended; each item replaces the one held. -/
def drain (s : Source α) (l : Latest α) (asked : Nat) : Latest α × Nat :=
  if l.finished then (l, asked)
  else
    match h : s.answer asked with
    | .item a => s.drain { l with held := some a } (asked + 1)
    | .ended => ({ l with finished := true }, asked + 1)
    | .pending => (l, asked + 1)
termination_by s.lull asked - asked
decreasing_by
  -- Every item brings the source nearer to the next lull, which stays where it is.
  have hlull := s.lull_of_item h
  have hle := s.le_lull (asked + 1)
  omega

/-- The items from the `n`-th answer to the next lull. -/
def arrivals (n : Nat) : List α :=
  (List.range' n (s.lull n - n)).filterMap fun k => (s.answer k).item?

theorem arrivals_of_item {n : Nat} {a : α} (h : s.answer n = .item a) :
    s.arrivals n = a :: s.arrivals (n + 1) := by
  have hle := s.le_lull (n + 1)
  have hlength : s.lull (n + 1) - n = s.lull (n + 1) - (n + 1) + 1 := by omega
  unfold arrivals
  rw [s.lull_of_item h, hlength, List.range'_succ]
  simp [h, Poll.item?]

theorem arrivals_of_no_item {n : Nat} (h : (s.answer n).item? = none) : s.arrivals n = [] := by
  unfold arrivals
  rw [s.lull_of_no_item h, Nat.sub_self]
  rfl

section

variable {s} {l : Latest α} {n : Nat} {a : α}

theorem drain_of_finished (h : l.finished = true) (n : Nat) : s.drain l n = (l, n) := by
  rw [drain, if_pos h]

theorem drain_of_item (hf : ¬ l.finished = true) (h : s.answer n = .item a) :
    s.drain l n = s.drain { l with held := some a } (n + 1) := by
  rw [drain, if_neg hf]
  split <;> simp_all

theorem drain_of_ended (hf : ¬ l.finished = true) (h : s.answer n = .ended) :
    s.drain l n = ({ l with finished := true }, n + 1) := by
  rw [drain, if_neg hf]
  split <;> simp_all

theorem drain_of_pending (hf : ¬ l.finished = true) (h : s.answer n = .pending) :
    s.drain l n = (l, n + 1) := by
  rw [drain, if_neg hf]
  split <;> simp_all

/-- Asking a source one answer after the other takes in all that it has ready. -/
theorem drain_eq_absorb (l : Latest α) (n : Nat) (h : ¬ l.finished = true) :
    s.drain l n = (l.absorb (s.arrivals n) (s.answer (s.lull n)).isEnd, s.lull n + 1) := by
  induction l, n using drain.induct s with
  | case1 l n hf => exact absurd hf h
  | case2 l n hf a ha ih =>
    rw [drain_of_item hf ha, ih h, s.lull_of_item ha, s.arrivals_of_item ha]
    cases hlast : (s.arrivals (n + 1)).getLast? with
    | none => simp [Latest.absorb, h, List.getLast?_cons, hlast]
    | some b => simp [Latest.absorb, h, List.getLast?_cons, hlast]
  | case3 l n hf he =>
    have hnone : (s.answer n).item? = none := by simp [he, Poll.item?]
    rw [drain_of_ended hf he, s.lull_of_no_item hnone, s.arrivals_of_no_item hnone]
    simp [Latest.absorb, h, he, Poll.isEnd]
  | case4 l n hf hp =>
    have hnone : (s.answer n).item? = none := by simp [hp, Poll.item?]
    have hsame : { l with finished := false } = l := by rw [← eq_false_of_ne_true h]
    rw [drain_of_pending hf hp, s.lull_of_no_item hnone, s.arrivals_of_no_item hnone]
    simp [Latest.absorb, h, hp, Poll.isEnd, hsame]

end

end Source

/-- A source that is thinned out. Nothing is said about when the thinned source is asked. -/
structure Thinning (α : Type) where
  source : Source α
  period : Nat
  start : Nat
  fresh : Latest α
  started : Latest.start? period start = some fresh
  /-- When the thinned source is asked for the `k`-th time. -/
  asks : Nat → Nat

namespace Thinning

open Source

variable (t : Thinning α)

/-- The thinned source before it is asked for the `k`-th time, and how many answers it has had. -/
def before : Nat → Latest α × Nat
  | 0 => (t.fresh, 0)
  | k + 1 =>
    let (l, taken) := t.source.drain (before k).1 (before k).2
    ((l.emit (t.asks k)).2, taken)

def latest (k : Nat) : Latest α := (t.before k).1

def taken (k : Nat) : Nat := (t.before k).2

def pacer (k : Nat) : Pacer := (t.latest k).pacer

/-- The thinned source when it is asked for the `k`-th time and has asked its source. -/
def filled (k : Nat) : Latest α := (t.source.drain (t.latest k) (t.taken k)).1

/-- What the thinned source answers when it is asked for the `k`-th time. -/
def answer (k : Nat) : Poll α := ((t.filled k).emit (t.asks k)).1

theorem latest_succ (k : Nat) : t.latest (k + 1) = ((t.filled k).emit (t.asks k)).2 := rfl

theorem emits (k : Nat) :
    Latest.Emits (t.filled k) (t.asks k) (t.answer k) (t.latest (k + 1)) :=
  (t.filled k).emits (t.asks k)

theorem taken_succ (k : Nat) :
    t.taken (k + 1) = (t.source.drain (t.latest k) (t.taken k)).2 := rfl

/-- The source is asked until it has nothing ready, or has ended. -/
theorem taken_of_open {k : Nat} (hf : ¬ (t.latest k).finished = true) :
    t.taken (k + 1) = t.source.lull (t.taken k) + 1 := by
  rw [taken_succ, drain_eq_absorb _ _ hf]

theorem taken_of_finished {k : Nat} (hf : (t.latest k).finished = true) :
    t.taken (k + 1) = t.taken k := by
  rw [taken_succ, drain_of_finished hf]

/-- All that arrives for the `k`-th asking is taken in at once. -/
theorem filled_eq_absorb (k : Nat) : t.filled k = (t.latest k).absorb
    (t.source.arrivals (t.taken k)) (t.source.answer (t.source.lull (t.taken k))).isEnd := by
  cases hf : (t.latest k).finished with
  | true => rw [filled, drain_of_finished hf, Latest.absorb, if_pos hf]
  | false => rw [filled, drain_eq_absorb _ _ (by simp [hf])]

theorem filled_pacer (k : Nat) : (t.filled k).pacer = t.pacer k := by
  rw [filled_eq_absorb, Latest.absorb]
  split <;> rfl

theorem poll_eq (k : Nat) : (t.latest k).poll (t.asks k) (t.source.arrivals (t.taken k))
    (t.source.answer (t.source.lull (t.taken k))).isEnd = (t.answer k, t.latest (k + 1)) := by
  rw [Latest.poll, ← t.filled_eq_absorb]
  rfl

end Thinning

end LivePlayback
