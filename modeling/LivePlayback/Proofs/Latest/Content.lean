import LivePlayback.Proofs.Latest.Thinning
import Mathlib.Order.Monotone.Basic

/-!
# What a thinned source gives

A thinned source gives items of its source, each when it is the newest one and none twice, and does
not lose the last one. However often it is asked, it leaves its source alone once that has ended.
-/

namespace LivePlayback
set_option autoImplicit false

variable {α : Type}

namespace Source

/-- Of the first `n` answers the `p`-th is the newest item. -/
structure Newest (s : Source α) (n p : Nat) (a : α) : Prop where
  lt : p < n
  item : s.answer p = .item a
  last : ∀ q, p < q → q < n → (s.answer q).item? = none

def EndedBy (s : Source α) (n : Nat) : Prop := ∃ e, e < n ∧ s.answer e = .ended

variable {s : Source α} {n m p q : Nat} {a b : α}

namespace Newest

theorem le (h : s.Newest n p a) (h' : s.Newest n q b) : q ≤ p := by
  apply Nat.le_of_not_lt
  intro hlt
  have hnone := h.last q hlt h'.lt
  rw [h'.item] at hnone
  cases hnone

theorem unique (h : s.Newest n p a) (h' : s.Newest n q b) : p = q ∧ a = b := by
  have hp : p = q := Nat.le_antisymm (h'.le h) (h.le h')
  subst hp
  have hitem := h.item.symm.trans h'.item
  cases hitem
  exact ⟨rfl, rfl⟩

theorem cut (h : s.Newest m p a) (hp : p < n) (hle : n ≤ m) : s.Newest n p a :=
  ⟨hp, h.item, fun q hq hn => h.last q hq (Nat.lt_of_lt_of_le hn hle)⟩

theorem succ (h : s.Newest n p a) (hn : (s.answer n).item? = none) : s.Newest (n + 1) p a := by
  refine ⟨Nat.lt_succ_of_lt h.lt, h.item, ?_⟩
  intro q hq hlt
  rcases Nat.lt_succ_iff_lt_or_eq.mp hlt with hlt | rfl
  · exact h.last q hq hlt
  · exact hn

end Newest

theorem endedBy_succ_iff : s.EndedBy (n + 1) ↔ s.EndedBy n ∨ s.answer n = .ended := by
  constructor
  · rintro ⟨e, he, hend⟩
    rcases Nat.lt_succ_iff_lt_or_eq.mp he with he | rfl
    · exact .inl ⟨e, he, hend⟩
    · exact .inr hend
  · rintro (⟨e, he, hend⟩ | hend)
    · exact ⟨e, Nat.lt_succ_of_lt he, hend⟩
    · exact ⟨n, Nat.lt_succ_self n, hend⟩

/-- What is held after `n` answers, if all items before the `out`-th answer are done with. -/
structure Holds (s : Source α) (l : Latest α) (out n : Nat) : Prop where
  le : out ≤ n
  held : ∀ a, l.held = some a → ∃ p, out ≤ p ∧ s.Newest n p a
  empty : l.held = none → ∀ p, out ≤ p → p < n → (s.answer p).item? = none
  finished : l.finished = true ↔ s.EndedBy n
  /-- Nothing was asked for after an end. -/
  last : ∀ e, s.answer e = .ended → n ≤ e + 1

namespace Holds

variable {l : Latest α} {out : Nat}

theorem not_endedBy (h : s.Holds l out n) (hf : ¬ l.finished = true) : ¬ s.EndedBy n :=
  fun he => hf (h.finished.mpr he)

theorem lt_of_ended (h : s.Holds l out n) (hf : ¬ l.finished = true) {e : Nat}
    (he : s.answer e = .ended) : n ≤ e := by
  apply Nat.le_of_not_lt
  intro hlt
  exact h.not_endedBy hf ⟨e, hlt, he⟩

theorem take (h : s.Holds l out n) (hf : ¬ l.finished = true) (ha : s.answer n = .item a) :
    s.Holds { l with held := some a } out (n + 1) := by
  refine ⟨Nat.le_succ_of_le h.le, ?_, nofun, ?_, ?_⟩
  · intro b hb
    cases hb
    refine ⟨n, h.le, Nat.lt_succ_self n, ha, ?_⟩
    intro q hq hlt
    omega
  · rw [endedBy_succ_iff, ha]
    simpa using h.finished
  · intro e he
    exact Nat.succ_le_succ (h.lt_of_ended hf he)

theorem pause (h : s.Holds l out n) (hf : ¬ l.finished = true) (hn : (s.answer n).item? = none)
    (ended : Bool) (hend : ended = true ↔ s.answer n = .ended) :
    s.Holds { l with finished := ended } out (n + 1) := by
  refine ⟨Nat.le_succ_of_le h.le, ?_, ?_, ?_, ?_⟩
  · intro a ha
    obtain ⟨p, hp, hnewest⟩ := h.held a ha
    exact ⟨p, hp, hnewest.succ hn⟩
  · intro hnone p hp hlt
    rcases Nat.lt_succ_iff_lt_or_eq.mp hlt with hlt | rfl
    · exact h.empty hnone p hp hlt
    · exact hn
  · have hopen := h.not_endedBy hf
    rw [endedBy_succ_iff]
    simp [hopen, hend]
  · intro e he
    exact Nat.succ_le_succ (h.lt_of_ended hf he)

theorem drain (h : s.Holds l out n) : s.Holds (s.drain l n).1 out (s.drain l n).2 := by
  -- One answer at a time: an item is held from then on, anything else leaves what is held.
  induction l, n using drain.induct s with
  | case1 l n hf =>
    rw [drain_of_finished hf]
    exact h
  | case2 l n hf a ha ih =>
    rw [drain_of_item hf ha]
    exact ih (h.take hf ha)
  | case3 l n hf he =>
    rw [drain_of_ended hf he]
    exact h.pause hf (by simp [he, Poll.item?]) true (by simp [he])
  | case4 l n hf hp =>
    have hsame : { l with finished := false } = l := by rw [← eq_false_of_ne_true hf]
    have hpause := h.pause hf (by simp [hp, Poll.item?]) false (by simp [hp])
    rw [hsame] at hpause
    rw [drain_of_pending hf hp]
    exact hpause

/-- What is given out is done with, and all items before it. -/
theorem give (h : s.Holds l out n) (pacer : Pacer) :
    s.Holds { l with pacer, held := none } n n :=
  ⟨Nat.le_refl n, nofun, fun _ _ hp hlt => absurd hlt (Nat.not_lt_of_le hp), h.finished, h.last⟩

end Holds

end Source

open Source

namespace Thinning

variable (t : Thinning α)

/-- Before which answer of the source all items are done with when the thinned source is asked for
the `k`-th time: they were given out, or replaced by one that was. -/
def settled : Nat → Nat
  | 0 => 0
  | k + 1 => if (t.answer k).item?.isSome then t.taken (k + 1) else settled k

/-- The thinned source gives the `p`-th answer of its source, which is the newest item then. -/
structure Gives (k p : Nat) (a : α) : Prop where
  answer : t.answer k = .item a
  newest : t.source.Newest (t.taken (k + 1)) p a

/-- The source has ended when the thinned source answers for the `k`-th time. -/
def EndedAt (k : Nat) : Prop := t.source.EndedBy (t.taken (k + 1))

variable {t} {j k p q : Nat} {a b : α}

theorem settled_of_item (h : t.answer k = .item a) : t.settled (k + 1) = t.taken (k + 1) := by
  rw [settled, h]
  rfl

theorem settled_of_no_item (h : (t.answer k).item? = none) :
    t.settled (k + 1) = t.settled k := by
  rw [settled, h]
  rfl

theorem fresh_eq (t : Thinning α) : t.fresh.held = none ∧ t.fresh.finished = false := by
  have hstarted := t.started
  rw [Latest.start?, Option.map_eq_some_iff] at hstarted
  obtain ⟨pacer, _, hfresh⟩ := hstarted
  rw [← hfresh]
  exact ⟨rfl, rfl⟩

theorem holds_filled (h : t.source.Holds (t.latest k) (t.settled k) (t.taken k)) :
    t.source.Holds (t.filled k) (t.settled k) (t.taken (k + 1)) :=
  h.drain

/-- One asking: what is held is again the newest item that is not done with. -/
theorem holds_latest_succ (h : t.source.Holds (t.filled k) (t.settled k) (t.taken (k + 1))) :
    t.source.Holds (t.latest (k + 1)) (t.settled (k + 1)) (t.taken (k + 1)) := by
  have hemits := t.emits k
  generalize hanswer : t.answer k = answer at hemits
  generalize t.latest (k + 1) = l at hemits ⊢
  cases hemits with
  | idle | closed | wait =>
    rw [settled_of_no_item (by rw [hanswer]; rfl)]
    exact h
  | inSlot | flush =>
    rw [settled_of_item hanswer]
    exact h.give _

theorem holds_latest (t : Thinning α) (k : Nat) :
    t.source.Holds (t.latest k) (t.settled k) (t.taken k) := by
  induction k with
  | zero =>
    obtain ⟨hheld, hfinished⟩ := t.fresh_eq
    refine ⟨Nat.le_refl 0, ?_, ?_, ?_, ?_⟩
    · intro a ha
      cases hheld.symm.trans ha
    · intro _ p _ hlt
      exact absurd hlt (Nat.not_lt_zero p)
    · refine ⟨fun hf => ?_, fun ⟨e, he, _⟩ => absurd he (Nat.not_lt_zero e)⟩
      cases hfinished.symm.trans hf
    · intro e _
      exact Nat.zero_le _
  | succ k ih => exact holds_latest_succ (holds_filled ih)

theorem holds (t : Thinning α) (k : Nat) :
    t.source.Holds (t.filled k) (t.settled k) (t.taken (k + 1)) :=
  holds_filled (t.holds_latest k)

theorem settled_le_succ (t : Thinning α) (k : Nat) : t.settled k ≤ t.settled (k + 1) := by
  cases h : t.answer k with
  | item a =>
    rw [settled_of_item h]
    exact (t.holds k).le
  | ended | pending => exact Nat.le_of_eq (settled_of_no_item (by rw [h]; rfl)).symm

/-- Items are done with because one was given out. -/
theorem exists_given_of_lt_settled (h : p < t.settled k) :
    ∃ j, j < k ∧ (∃ a, t.answer j = .item a) ∧ t.settled k = t.taken (j + 1) := by
  induction k with
  | zero => exact absurd h (Nat.not_lt_zero p)
  | succ k ih =>
    cases ha : t.answer k with
    | item a => exact ⟨k, Nat.lt_succ_self k, ⟨a, ha⟩, settled_of_item ha⟩
    | ended | pending =>
      have hsame : t.settled (k + 1) = t.settled k := settled_of_no_item (by rw [ha]; rfl)
      rw [hsame] at h ⊢
      obtain ⟨j, hj, hitem, hsettled⟩ := ih h
      exact ⟨j, Nat.lt_succ_of_lt hj, hitem, hsettled⟩

theorem held_of_item (h : t.answer k = .item a) : (t.filled k).held = some a := by
  have hemits := t.emits k
  rw [h] at hemits
  generalize t.latest (k + 1) = l at hemits
  cases hemits with
  | inSlot hh | flush hh => exact hh

theorem gives_of_item (h : t.answer k = .item a) : ∃ p, t.settled k ≤ p ∧ t.Gives k p a := by
  obtain ⟨p, hp, hnewest⟩ := (t.holds k).held a (held_of_item h)
  exact ⟨p, hp, h, hnewest⟩

theorem Gives.settled_le (h : t.Gives k p a) : t.settled k ≤ p := by
  obtain ⟨q, hq, hgives⟩ := gives_of_item h.answer
  obtain ⟨rfl, _⟩ := h.newest.unique hgives.newest
  exact hq

theorem Gives.lt (h : t.Gives j p a) (h' : t.Gives k q b) (hjk : j < k) : p < q :=
  calc
    p < t.taken (j + 1) := h.newest.lt
    _ = t.settled (j + 1) := (settled_of_item h.answer).symm
    _ ≤ t.settled k := monotone_nat_of_le_succ t.settled_le_succ hjk
    _ ≤ q := h'.settled_le

/-- A source that has ended leaves only what is held to be given out. -/
theorem emits_of_ended (h : t.EndedAt k) :
    ((t.filled k).held = none ∧ t.answer k = .ended ∨
      ∃ a, (t.filled k).held = some a ∧ t.answer k = .item a) ∧
    (t.latest (k + 1)).held = none ∧ (t.latest (k + 1)).finished = true := by
  have hfinished := (t.holds k).finished.mpr h
  have hemits := t.emits k
  generalize t.answer k = answer at hemits
  generalize t.latest (k + 1) = l at hemits
  cases hemits with
  | idle _ hf | wait _ hf | inSlot _ hf => simp [hf] at hfinished
  | closed hh => exact ⟨.inl ⟨hh, rfl⟩, hh, hfinished⟩
  | @flush a hh => exact ⟨.inr ⟨a, hh, rfl⟩, rfl, hfinished⟩

/-- Where nothing is held the newest item is done with, and the last one given was that. -/
theorem given_of_not_held (hnone : (t.filled k).held = none)
    (hn : t.source.Newest (t.taken (k + 1)) p a) : ∃ j, j < k ∧ t.Gives j p a := by
  have hlt : p < t.settled k := by
    apply Nat.lt_of_not_le
    intro hle
    have hitem := (t.holds k).empty hnone p hle hn.lt
    rw [hn.item] at hitem
    cases hitem
  obtain ⟨j, hj, ⟨b, hb⟩, hsettled⟩ := exists_given_of_lt_settled hlt
  obtain ⟨q, _, hgives⟩ := gives_of_item hb
  rw [hsettled] at hlt
  have hnewest : t.source.Newest (t.taken (j + 1)) p a :=
    hn.cut hlt (hsettled ▸ (t.holds k).le)
  obtain ⟨_, rfl⟩ := hnewest.unique hgives.newest
  exact ⟨j, hj, hgives.answer, hnewest⟩

theorem given_of_ended (h : t.EndedAt k) (hn : t.source.Newest (t.taken (k + 1)) p a) :
    ∃ j, j ≤ k ∧ t.Gives j p a := by
  rcases (emits_of_ended h).1 with ⟨hnone, _⟩ | ⟨b, _, hanswer⟩
  · obtain ⟨j, hj, hgives⟩ := given_of_not_held hnone hn
    exact ⟨j, Nat.le_of_lt hj, hgives⟩
  · obtain ⟨q, _, hgives⟩ := gives_of_item hanswer
    obtain ⟨_, rfl⟩ := hn.unique hgives.newest
    exact ⟨k, Nat.le_refl k, hanswer, hn⟩

/-- The newest item is kept back only for want of a slot. -/
theorem given_or_early (h : t.answer k = .pending)
    (hn : t.source.Newest (t.taken (k + 1)) p a) :
    (∃ j, j < k ∧ t.Gives j p a) ∨ t.asks k < (t.pacer k).slot := by
  have hemits := t.emits k
  rw [h] at hemits
  generalize t.latest (k + 1) = l at hemits
  cases hemits with
  | idle hh => exact .inl (given_of_not_held hh hn)
  | wait _ _ hs =>
    rw [t.filled_pacer] at hs
    exact .inr hs

theorem ended_of_over (hh : (t.latest k).held = none) (hf : (t.latest k).finished = true) :
    t.answer k = .ended ∧ t.latest (k + 1) = t.latest k := by
  have hsame : t.filled k = t.latest k := congrArg Prod.fst (drain_of_finished hf _)
  rw [answer, latest_succ, hsame, Latest.emit, hh]
  simp [hf]

theorem ended_of_ended (h : t.EndedAt k) (hk : k < j) : t.answer j = .ended := by
  obtain ⟨_, hh, hf⟩ := emits_of_ended h
  -- Once it is over, a thinned source does not change any more.
  have hover : (t.latest j).held = none ∧ (t.latest j).finished = true := by
    induction hk with
    | refl => exact ⟨hh, hf⟩
    | step _ ih =>
      rw [(ended_of_over ih.1 ih.2).2]
      exact ih
  exact (ended_of_over hover.1 hover.2).1

theorem endedAt_of_ended (h : t.answer k = .ended) : t.EndedAt k := by
  have hemits := t.emits k
  rw [h] at hemits
  generalize t.latest (k + 1) = l at hemits
  cases hemits with
  | closed _ hf => exact (t.holds k).finished.mp hf

/-- What a thinned source gives of the items of its source. -/
structure FollowsSource (t : Thinning α) : Prop where
  /-- Whenever the thinned source is asked, it asks its source until that has nothing ready or has
  ended, and not at all any more once it has ended. -/
  asked : t.taken 0 = 0 ∧ ∀ k,
    (¬ t.source.EndedBy (t.taken k) → t.taken (k + 1) = t.source.lull (t.taken k) + 1) ∧
      (t.source.EndedBy (t.taken k) → t.taken (k + 1) = t.taken k)
  /-- The answer is that of a poll which takes in at once all that has arrived. -/
  polled : ∀ k, (t.latest k).poll (t.asks k) (t.source.arrivals (t.taken k))
    (t.source.answer (t.source.lull (t.taken k))).isEnd = (t.answer k, t.latest (k + 1))
  /-- Every item that is given is the newest one there is. -/
  newest : ∀ k a, t.answer k = .item a → ∃ p, t.Gives k p a
  increasing : ∀ j k p q a b, t.Gives j p a → t.Gives k q b → j < k → p < q
  /-- The newest item is given at once, or when there is a slot. -/
  prompt : ∀ k p a, t.answer k = .pending → t.source.Newest (t.taken (k + 1)) p a →
    (∃ j, j < k ∧ t.Gives j p a) ∨ t.asks k < (t.pacer k).slot
  /-- When the source has ended, the last item has been given or is given now, slot or not. -/
  flushed : ∀ k p a, t.EndedAt k → t.source.Newest (t.taken (k + 1)) p a →
    ∃ j, j ≤ k ∧ t.Gives j p a
  atOnce : ∀ k, t.EndedAt k → t.answer k = .ended ∨ ∃ a, t.answer k = .item a
  forever : ∀ k, t.EndedAt k → ∀ j, k < j → t.answer j = .ended
  notBefore : ∀ k, t.answer k = .ended → t.EndedAt k
  /-- The source is not asked again once it has answered that it ended. -/
  untouched : ∀ k e, t.source.answer e = .ended → t.taken k ≤ e + 1

theorem follows_source (t : Thinning α) : t.FollowsSource where
  asked := by
    refine ⟨rfl, fun k => ⟨?_, ?_⟩⟩
    · intro hopen
      exact t.taken_of_open fun hf => hopen ((t.holds_latest k).finished.mp hf)
    · intro hended
      exact t.taken_of_finished ((t.holds_latest k).finished.mpr hended)
  polled := by
    intro k
    exact t.poll_eq k
  newest := by
    intro k a h
    obtain ⟨p, _, hgives⟩ := gives_of_item h
    exact ⟨p, hgives⟩
  increasing := by
    intro j k p q a b h h' hjk
    exact h.lt h' hjk
  prompt := by
    intro k p a h hn
    exact given_or_early h hn
  flushed := by
    intro k p a h hn
    exact given_of_ended h hn
  atOnce := by
    intro k h
    rcases (emits_of_ended h).1 with ⟨_, hended⟩ | ⟨a, _, hitem⟩
    · exact .inl hended
    · exact .inr ⟨a, hitem⟩
  forever := by
    intro k h j hk
    exact ended_of_ended h hk
  notBefore := by
    intro k h
    exact endedAt_of_ended h
  untouched := by
    intro k e he
    exact (t.holds_latest k).last e he

/-- The source gives two items at once, one that has to wait for a slot, and one just before it
ends, which is let out early. -/
theorem follows_source_of_burst :
    let answers : List (Poll Nat) :=
      [.item 1, .item 2, .pending, .item 3, .pending, .item 4, .ended]
    let source : Source Nat :=
      ⟨fun n => answers[n]?.getD .ended, fun n => ⟨n + 7, Nat.le_add_right n 7, rfl⟩⟩
    let t : Thinning Nat :=
      ⟨source, 40 * nanosPerMilli, 0, ⟨⟨40 * nanosPerMilli, 0⟩, none, false⟩, rfl,
        fun k => k * (10 * nanosPerMilli)⟩
    t.FollowsSource ∧ (List.range 5).map t.taken = [0, 3, 5, 7, 7] ∧
      (List.range 4).map (fun k => (t.answer k).item?) = [some 2, none, some 4, none] ∧
      ∀ j, 2 < j → t.answer j = .ended := by
  intro answers source t
  have hfollows := t.follows_source
  have htaken : (List.range 5).map t.taken = [0, 3, 5, 7, 7] := by decide +kernel
  have hended : t.EndedAt 2 := ⟨6, by decide +kernel, rfl⟩
  exact ⟨hfollows, htaken, by decide +kernel, hfollows.forever 2 hended⟩

end Thinning

end LivePlayback
