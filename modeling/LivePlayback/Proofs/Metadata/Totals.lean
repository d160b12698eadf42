import LivePlayback.Proofs.Metadata.Reencoding
import Mathlib.Algebra.BigOperators.Group.List.Basic
import Mathlib.Algebra.Ring.Int.Defs

/-!
# The total of the observers

Counts are added in the order of their kinds, and there is no total once a sum on the way leaves 64
bits, even if the rest would bring it back. So it may depend on the names of the kinds whether there
is one, but never what it is.
-/

namespace LivePlayback.Metadata
set_option autoImplicit false

open Json Entries

/-! ## Sums on the way -/

variable {start c n : Int} {cs ds : List Int}

/-- All sums on the way fit 64 bits, from the first to the last one. -/
def Steady (start : Int) (cs : List Int) : Prop :=
  ∀ before, before <+: cs → fitsInt64 (start + before.sum) = true

theorem Steady.fits_start (h : Steady start cs) : fitsInt64 start = true := by
  simpa using h [] List.nil_prefix

theorem steady_nil : Steady start [] ↔ fitsInt64 start = true := by
  constructor
  · exact Steady.fits_start
  · intro h before hb
    rw [List.prefix_nil.mp hb]
    simpa using h

theorem steady_cons : Steady start (c :: cs) ↔ fitsInt64 start = true ∧ Steady (start + c) cs := by
  constructor
  · intro h
    refine ⟨h.fits_start, ?_⟩
    intro before hb
    have hfits := h (c :: before) (List.cons_prefix_cons.mpr ⟨rfl, hb⟩)
    rwa [List.sum_cons, ← Int.add_assoc] at hfits
  · rintro ⟨hstart, h⟩ before hb
    rcases List.prefix_cons_iff.mp hb with rfl | ⟨rest, rfl, hrest⟩
    · simpa using hstart
    · rw [List.sum_cons, ← Int.add_assoc]
      exact h rest hrest

/-- Adding up counts comes to their sum, or to nothing. -/
theorem foldlM_addCount?_eq_some_iff (hs : fitsInt64 start = true) :
    cs.foldlM addCount? start = some n ↔ n = start + cs.sum ∧ Steady start cs := by
  induction cs generalizing start with
  | nil =>
    rw [steady_nil]
    simp [hs, eq_comm]
  | cons c cs ih =>
    rw [steady_cons, List.foldlM_cons, List.sum_cons, ← Int.add_assoc]
    by_cases hfits : fitsInt64 (start + c) = true
    · have hadd : addCount? start c = some (start + c) := if_pos hfits
      rw [hadd]
      simpa [hs] using ih hfits
    · have hadd : addCount? start c = none := if_neg hfits
      rw [hadd]
      constructor
      · intro h
        cases h
      · rintro ⟨_, _, h⟩
        exact absurd h.fits_start hfits

/-! ## Orders in which to add -/

/-- What the counts come to without the negative ones. -/
def gains (cs : List Int) : Int := (cs.map (max 0)).sum

/-- What the counts come to without the positive ones. -/
def losses (cs : List Int) : Int := (cs.map (min 0)).sum

theorem gains_cons : gains (c :: cs) = max 0 c + gains cs := rfl

theorem losses_cons : losses (c :: cs) = min 0 c + losses cs := rfl

theorem gains_perm (h : cs.Perm ds) : gains cs = gains ds := (h.map _).sum_eq

theorem losses_perm (h : cs.Perm ds) : losses cs = losses ds := (h.map _).sum_eq

/-- Whichever counts are added, the sum stays between losses and gains. -/
theorem sum_bounds (h : cs.Sublist ds) : losses ds ≤ cs.sum ∧ cs.sum ≤ gains ds := by
  induction h with
  | slnil => simp [gains, losses]
  | cons c _ ih =>
    rw [gains_cons, losses_cons]
    omega
  | cons_cons c _ ih =>
    rw [gains_cons, losses_cons, List.sum_cons]
    omega

theorem sum_filter_nonneg (cs : List Int) : (cs.filter (0 ≤ ·)).sum = gains cs := by
  induction cs with
  | nil => rfl
  | cons c cs ih =>
    by_cases hc : 0 ≤ c
    · rw [List.filter_cons_of_pos (by simpa using hc), List.sum_cons, gains_cons, ih]
      omega
    · rw [List.filter_cons_of_neg (by simpa using hc), gains_cons, ih]
      omega

theorem sum_filter_nonpos (cs : List Int) : (cs.filter (· ≤ 0)).sum = losses cs := by
  induction cs with
  | nil => rfl
  | cons c cs ih =>
    by_cases hc : c ≤ 0
    · rw [List.filter_cons_of_pos (by simpa using hc), List.sum_cons, losses_cons, ih]
      omega
    · rw [List.filter_cons_of_neg (by simpa using hc), losses_cons, ih]
      omega

theorem sum_eq_gains (h : ∀ c ∈ cs, 0 ≤ c) : cs.sum = gains cs := by
  rw [← sum_filter_nonneg, List.filter_eq_self.mpr (by simpa using h)]

theorem sum_eq_losses (h : ∀ c ∈ cs, c ≤ 0) : cs.sum = losses cs := by
  rw [← sum_filter_nonpos, List.filter_eq_self.mpr (by simpa using h)]

theorem losses_eq_zero (h : ∀ c ∈ cs, 0 ≤ c) : losses cs = 0 := by
  apply List.sum_eq_zero
  intro d hd
  obtain ⟨c, hc, rfl⟩ := List.mem_map.mp hd
  exact min_eq_left (h c hc)

theorem steady_of_bounds (hl : -0x8000000000000000 ≤ losses cs)
    (hg : gains cs < 0x8000000000000000) : Steady 0 cs := by
  intro before hb
  obtain ⟨hlow, hhigh⟩ := sum_bounds hb.sublist
  rw [fitsInt64_iff, Int.zero_add]
  omega

/-- Some order starts with the counts that are chosen. -/
theorem exists_perm_prefix (p : Int → Bool) (cs : List Int) :
    ∃ ds, ds.Perm cs ∧ cs.filter p <+: ds :=
  ⟨cs.filter p ++ cs.filter (fun c => !p c), List.filter_append_perm p cs,
    List.prefix_append _ _⟩

/-- The order of the counts makes no difference just if both gains and losses fit. -/
theorem forall_perm_steady_iff : (∀ ds, ds.Perm cs → Steady 0 ds) ↔
    -0x8000000000000000 ≤ losses cs ∧ gains cs < 0x8000000000000000 := by
  constructor
  · intro h
    have hfits (p : Int → Bool) : fitsInt64 (cs.filter p).sum = true := by
      obtain ⟨ds, hperm, hprefix⟩ := exists_perm_prefix p cs
      simpa using h ds hperm _ hprefix
    have hgains := fitsInt64_iff.mp (hfits (0 ≤ ·))
    have hlosses := fitsInt64_iff.mp (hfits (· ≤ 0))
    rw [sum_filter_nonneg] at hgains
    rw [sum_filter_nonpos] at hlosses
    exact ⟨hlosses.1, hgains.2⟩
  · rintro ⟨hl, hg⟩ ds hperm
    apply steady_of_bounds
    · rwa [losses_perm hperm]
    · rwa [gains_perm hperm]

/-- As long as counts are left there is one that can be added. -/
theorem exists_next (hne : cs ≠ []) (hs : fitsInt64 start = true)
    (hsum : fitsInt64 (start + cs.sum) = true) (hcs : ∀ c ∈ cs, fitsInt64 c = true) :
    ∃ c ∈ cs, fitsInt64 (start + c) = true := by
  rw [fitsInt64_iff] at hs hsum
  by_cases hback : ∃ c ∈ cs, 0 ≤ start ∧ c ≤ 0 ∨ start ≤ 0 ∧ 0 ≤ c
  · -- This one leads back towards zero.
    obtain ⟨c, hc, hback⟩ := hback
    have hfits := fitsInt64_iff.mp (hcs c hc)
    exact ⟨c, hc, fitsInt64_iff.mpr (by omega)⟩
  · -- All counts have the sign of the sum so far, so none of them leads beyond the last sum.
    obtain ⟨d, hd⟩ := List.exists_mem_of_ne_nil cs hne
    obtain ⟨hlow, hhigh⟩ := sum_bounds (List.singleton_sublist.mpr hd)
    rw [List.sum_singleton] at hlow hhigh
    refine ⟨d, hd, fitsInt64_iff.mpr ?_⟩
    have hsign : ∀ c ∈ cs, ¬ (0 ≤ start ∧ c ≤ 0 ∨ start ≤ 0 ∧ 0 ≤ c) := by
      intro c hc hsign
      exact hback ⟨c, hc, hsign⟩
    have hd' := hsign d hd
    rcases Int.le_total 0 start with hpos | hneg
    · have hall : cs.sum = gains cs := by
        apply sum_eq_gains
        intro c hc
        have hc' := hsign c hc
        omega
      omega
    · have hall : cs.sum = losses cs := by
        apply sum_eq_losses
        intro c hc
        have hc' := hsign c hc
        omega
      omega

/-- Counts whose sum fits can be added in some order. -/
theorem exists_perm_steady (hs : fitsInt64 start = true) (hsum : fitsInt64 (start + cs.sum) = true)
    (hcs : ∀ c ∈ cs, fitsInt64 c = true) : ∃ ds, ds.Perm cs ∧ Steady start ds := by
  generalize hn : cs.length = n
  induction n generalizing start cs with
  | zero =>
    refine ⟨[], ?_, steady_nil.mpr hs⟩
    rw [List.length_eq_zero_iff.mp hn]
  | succ n ih =>
    have hne : cs ≠ [] := List.ne_nil_of_length_eq_add_one hn
    obtain ⟨c, hc, hfits⟩ := exists_next hne hs hsum hcs
    have hperm : cs.Perm (c :: cs.erase c) := List.perm_cons_erase hc
    have hlength : (cs.erase c).length = n := by
      rw [List.length_erase_of_mem hc, hn, Nat.add_sub_cancel]
    rw [hperm.sum_eq, List.sum_cons, ← Int.add_assoc] at hsum
    obtain ⟨ds, hds, hsteady⟩ := ih hfits hsum
      (fun d hd => hcs d (List.mem_of_mem_erase hd)) hlength
    exact ⟨c :: ds, (hds.cons c).trans hperm.symm, steady_cons.mpr ⟨hs, hsteady⟩⟩

/-! ## Totals -/

variable {m m' : Metadata} {payload : ByteArray}

/-- The counts in the order in which they are added. -/
def tally (m : Metadata) : List Int := m.observers.map Prod.snd

theorem observerTotal?_eq_some_iff :
    m.observerTotal? = some n ↔ n = m.tally.sum ∧ Steady 0 m.tally := by
  have hfold : m.observerTotal? = m.tally.foldlM addCount? 0 := by
    rw [tally, List.foldlM_map]
    rfl
  have hzero : fitsInt64 0 = true := rfl
  rw [hfold, foldlM_addCount?_eq_some_iff hzero, Int.zero_add]

/-- A payload says the same counts of other kinds, which may come in another order. -/
structure Renames (m m' : Metadata) : Prop where
  decoded : ∃ payload, decode payload = .ok m'
  counts : m'.tally.Perm m.tally

/-- The record with its counts in another order and nothing else but the known fields. -/
def reorder (m : Metadata) (cs : List Int) : Metadata :=
  { m with observers := (m.observers.map Prod.fst).zip cs, extra := [] }

theorem tally_reorder (h : cs.length = m.tally.length) : (m.reorder cs).tally = cs := by
  rw [tally, reorder, List.map_snd_zip]
  rw [List.length_map, h, tally, List.length_map]

theorem kinds_reorder (h : cs.length = m.tally.length) :
    (m.reorder cs).observers.map Prod.fst = m.observers.map Prod.fst := by
  rw [reorder, List.map_fst_zip]
  rw [List.length_map, h, tally, List.length_map]

theorem Tidy.reorder (h : m.Tidy) (hperm : cs.Perm m.tally) : (m.reorder cs).Tidy := by
  constructor
  case observers =>
    apply List.pairwise_map.mp
    rw [kinds_reorder hperm.length_eq]
    exact List.pairwise_map.mpr h.observers
  case counts =>
    intro e he
    have hmem : e.2 ∈ (m.reorder cs).tally := List.mem_map_of_mem he
    rw [tally_reorder hperm.length_eq, hperm.mem_iff] at hmem
    obtain ⟨e', he', heq⟩ := List.mem_map.mp hmem
    exact heq ▸ h.counts e' he'
  case extra => exact .nil
  all_goals simp [Metadata.reorder]

/-- The same kinds could have had the counts in any order. -/
theorem Tidy.renames (h : m.Tidy) (hperm : cs.Perm m.tally) : Renames m (m.reorder cs) := by
  refine ⟨⟨_, (h.reorder hperm).decode_encode (by simp [Metadata.reorder])⟩, ?_⟩
  rw [tally_reorder hperm.length_eq]
  exact hperm

theorem Renames.total_iff (h : Renames m m') :
    m'.observerTotal? = some n ↔ n = m.tally.sum ∧ Steady 0 m'.tally := by
  rw [observerTotal?_eq_some_iff, h.counts.sum_eq]

/-- How the observers of a record are added up. -/
structure AddsUp (m : Metadata) : Prop where
  /-- The total is the sum of all counts, and there is one unless a sum on the way leaves 64 bits. -/
  total : ∀ n, m.observerTotal? = some n ↔ n = m.tally.sum ∧ Steady 0 m.tally
  /-- Other names never make it another one. -/
  unique : ∀ m' n, Renames m m' → m'.observerTotal? = some n → n = m.tally.sum
  /-- With some names there is a total, just if it fits 64 bits, -/
  sometimes : (∃ m', Renames m m' ∧ m'.observerTotal? = some m.tally.sum) ↔
    fitsInt64 m.tally.sum = true
  /-- and whatever the names, just if gains and losses fit on their own. -/
  always : (∀ m', Renames m m' → m'.observerTotal? = some m.tally.sum) ↔
    -0x8000000000000000 ≤ losses m.tally ∧ gains m.tally < 0x8000000000000000
  /-- If no count is negative, that is to say just if the total fits. -/
  nonnegative : (∀ c ∈ m.tally, 0 ≤ c) → fitsInt64 m.tally.sum = true →
    ∀ m', Renames m m' → m'.observerTotal? = some m.tally.sum

/-- Whether the observers of a record have a total can depend on the names of their kinds, but not
what the total is. -/
theorem observers_add_up (h : decode payload = .ok m) : m.AddsUp := by
  obtain ⟨htidy, _⟩ := tidy_of_decode h
  have hcounts : ∀ c ∈ m.tally, fitsInt64 c = true := by
    intro c hc
    obtain ⟨e, he, rfl⟩ := List.mem_map.mp hc
    exact htidy.counts e he
  have halways : (∀ m', Renames m m' → m'.observerTotal? = some m.tally.sum) ↔
      -0x8000000000000000 ≤ losses m.tally ∧ gains m.tally < 0x8000000000000000 := by
    rw [← forall_perm_steady_iff]
    constructor
    · intro hall ds hperm
      have hrenames : Renames m (m.reorder ds) := htidy.renames hperm
      have hsteady := (hrenames.total_iff.mp (hall _ hrenames)).2
      rwa [tally_reorder hperm.length_eq] at hsteady
    · intro hall m' hm'
      exact hm'.total_iff.mpr ⟨rfl, hall _ hm'.counts⟩
  constructor
  case total =>
    intro n
    exact observerTotal?_eq_some_iff
  case unique =>
    intro m' n hm' hn
    exact (hm'.total_iff.mp hn).1
  case sometimes =>
    constructor
    · rintro ⟨m', hm', htotal⟩
      have hlast := (hm'.total_iff.mp htotal).2 _ (List.prefix_refl _)
      rwa [Int.zero_add, hm'.counts.sum_eq] at hlast
    · intro hfits
      have hzero : fitsInt64 0 = true := rfl
      rw [← Int.zero_add m.tally.sum] at hfits
      obtain ⟨ds, hperm, hsteady⟩ := exists_perm_steady hzero hfits hcounts
      have hrenames : Renames m (m.reorder ds) := htidy.renames hperm
      refine ⟨_, hrenames, hrenames.total_iff.mpr ⟨rfl, ?_⟩⟩
      rwa [tally_reorder hperm.length_eq]
  case always => exact halways
  case nonnegative =>
    intro hpos hfits
    apply halways.mpr
    have hsum := fitsInt64_iff.mp hfits
    rw [← sum_eq_gains hpos, losses_eq_zero hpos]
    omega

/-- The counts fit together, but not the first two of them. -/
theorem observers_add_up_of_cancelling :
    let payload := ("\x7b\"observers\":\x7b\"a\":9223372036854775807,\"b\":1,\"c\":-1" ++
      "\x7d\x7d").toUTF8
    let m : Metadata :=
      ⟨"", "", none, [("a", 9223372036854775807), ("b", 1), ("c", -1)], []⟩
    decode payload = .ok m ∧ m.tally.sum = 9223372036854775807 ∧ m.observerTotal? = none ∧
      m.AddsUp := by
  intro payload m
  have hm : decode payload = .ok m := by
    rw [decode_toUTF8]
    decide +kernel
  exact ⟨hm, by decide, by decide, observers_add_up hm⟩

end LivePlayback.Metadata
