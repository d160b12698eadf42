import LivePlayback.Proofs.Decimal.Rounding
import LivePlayback.Proofs.Json.Grammar

/-!
# Numbers that are too large

A number below `10 ^ 308` has a value, however many digits it is written with, and one from
`10 ^ 309` on has none. In between it depends on how its digits are rounded.
-/

namespace LivePlayback.Json
set_option autoImplicit false

open Decimal

namespace Literal

variable {n : Nat} {ds : List Nat} {x : Binary64}

/-- A number with more digits behind it. -/
def extend (n : Nat) (ds : List Nat) : Nat := ds.foldl (fun n d => n * 10 + d) n

/-- The number that is written, without its sign. -/
def magnitude (l : Literal) : ℚ :=
  extend 0 (l.whole ++ l.fraction) * 10 ^ (l.exponent - l.fraction.length)

/-! ## Digits -/

theorem extend_bounds (hd : ∀ d ∈ ds, d ≤ 9) :
    n * 10 ^ ds.length ≤ extend n ds ∧ extend n ds < (n + 1) * 10 ^ ds.length := by
  induction ds generalizing n with
  | nil => simp [extend]
  | cons d ds ih =>
    obtain ⟨hle, hlt⟩ := ih (n := n * 10 + d) fun d hd' => hd d (List.mem_cons_of_mem _ hd')
    have hd := hd d List.mem_cons_self
    have hstep : extend n (d :: ds) = extend (n * 10 + d) ds := rfl
    rw [hstep, List.length_cons, Nat.pow_succ', ← Nat.mul_assoc, ← Nat.mul_assoc]
    constructor
    · exact le_trans (Nat.mul_le_mul_right _ (by omega)) hle
    · exact lt_of_lt_of_le hlt (Nat.mul_le_mul_right _ (by omega))

/-- What is gathered of some digits: all of them, or as many as make a number that is not small. -/
structure Gathers (n : Nat) (ds : List Nat) (m k : Nat) : Prop where
  le : m * 10 ^ k ≤ extend n ds
  lt : extend n ds < (m + 1) * 10 ^ k
  ge : n * 10 ^ ds.length ≤ m * 10 ^ k
  full : 0 < k → wordMax < m * 10 + 10

theorem gathers (hd : ∀ d ∈ ds, d ≤ 9) : Gathers n ds (gather n ds).1 (gather n ds).2 := by
  induction ds generalizing n with
  | nil => constructor <;> simp [gather, extend]
  | cons d ds ih =>
    have hrest := fun d hd' => hd d (List.mem_cons_of_mem _ hd')
    obtain ⟨hle, hlt⟩ := extend_bounds (n := n) hd
    unfold gather
    split
    · obtain ⟨hle', hlt', hge, hfull⟩ := ih (n := n * 10 + d) hrest
      refine ⟨hle', hlt', ?_, hfull⟩
      rw [List.length_cons, Nat.pow_succ', ← Nat.mul_assoc]
      exact le_trans (Nat.mul_le_mul_right _ (by omega)) hge
    · rename_i hfull
      have hd := hd d List.mem_cons_self
      exact ⟨hle, hlt, le_refl _, fun _ => by simp only; omega⟩

/-- Both numbers are the same, or both are at the same place among the multiples of a number that
is small against them. -/
theorem near_of_interval {m p q t : Nat} (hm : 8 ≤ m) (hp : m * t ≤ p ∧ p < (m + 1) * t)
    (hq : m * t ≤ q ∧ q < (m + 1) * t) : 7 * q ≤ 8 * p ∧ 8 * p ≤ 9 * q := by
  have hstep : 8 * t ≤ m * t := Nat.mul_le_mul_right t hm
  rw [Nat.add_one_mul] at hp hq
  omega

variable {whole fraction : List Nat} {n₁ u n₂ g : Nat}

theorem Gathers.eq_of_zero (h : Gathers n ds n₁ 0) : n₁ = extend n ds := by
  have hle := h.le
  have hlt := h.lt
  rw [Nat.pow_zero, Nat.mul_one] at hle hlt
  omega

/-- What is gathered of both parts of a number is not far from it. -/
theorem Gathers.near (hf : ∀ d ∈ fraction, d ≤ 9) (h₁ : Gathers 0 whole n₁ u)
    (h₂ : Gathers n₁ fraction n₂ g) :
    7 * extend 0 (whole ++ fraction) ≤ 8 * (n₂ * 10 ^ (g + u)) ∧
      8 * (n₂ * 10 ^ (g + u)) ≤ 9 * extend 0 (whole ++ fraction) := by
  have hall : extend 0 (whole ++ fraction) = extend (extend 0 whole) fraction :=
    List.foldl_append
  rw [hall]
  rcases Nat.eq_zero_or_pos u with rfl | hu
  · rw [← h₁.eq_of_zero, Nat.add_zero]
    rcases Nat.eq_zero_or_pos g with rfl | hg
    · rw [← h₂.eq_of_zero]
      omega
    · have hfull := h₂.full hg
      have hsize : 8 ≤ n₂ := by
        rw [wordMax, UInt64.size] at hfull
        omega
      have hpos : 0 < 10 ^ g := Nat.pow_pos (by decide)
      refine near_of_interval hsize ⟨le_refl _, ?_⟩ ⟨h₂.le, h₂.lt⟩
      exact Nat.mul_lt_mul_of_pos_right (Nat.lt_succ_self n₂) hpos
  · have hfull := h₁.full hu
    have hsize : 8 ≤ n₁ := by
      rw [wordMax, UInt64.size] at hfull
      omega
    have hpos : 0 < 10 ^ u := Nat.pow_pos (by decide)
    obtain ⟨hlow, hhigh⟩ := extend_bounds (n := extend 0 whole) hf
    refine near_of_interval (t := 10 ^ fraction.length * 10 ^ u) hsize ⟨?_, ?_⟩ ⟨?_, ?_⟩
    · rw [Nat.pow_add, ← Nat.mul_assoc, ← Nat.mul_assoc]
      exact Nat.mul_le_mul_right _ h₂.ge
    · rw [Nat.pow_add, ← Nat.mul_assoc, ← Nat.mul_assoc]
      exact Nat.mul_lt_mul_of_pos_right (lt_of_le_of_lt h₂.le (extend_bounds hf).2) hpos
    · rw [Nat.mul_comm (10 ^ _), ← Nat.mul_assoc]
      exact le_trans (Nat.mul_le_mul_right _ h₁.le) hlow
    · rw [Nat.mul_comm (10 ^ _), ← Nat.mul_assoc]
      exact lt_of_lt_of_le hhigh (Nat.mul_le_mul_right _ h₁.lt)

/-! ## Powers of ten -/

open Binary64 (safe limit)

theorem lt_safe : (10 : ℚ) ^ 308 * 16 < safe * 9 := by
  have hnat : 10 ^ 308 * 16 + 2 ^ 971 * 9 < 2 ^ 1024 * 9 := by decide +kernel
  have hrat : (10 : ℚ) ^ 308 * 16 + 2 ^ 971 * 9 < 2 ^ 1024 * 9 := by exact_mod_cast hnat
  rw [safe, sub_mul]
  exact lt_sub_iff_add_lt.mpr hrat

theorem safe_le : safe ≤ 10 ^ 309 := by
  have hnat : 2 ^ 1024 ≤ 10 ^ 309 := by decide +kernel
  have hrat : (2 : ℚ) ^ 1024 ≤ 10 ^ 309 := by exact_mod_cast hnat
  exact le_trans (sub_le_self _ (by positivity)) hrat

theorem limit_lt : limit * 2 < 10 ^ 309 := by
  have hnat : 2 ^ 1024 * 2 < 10 ^ 309 := by decide +kernel
  unfold limit
  exact_mod_cast hnat

theorem powerOfTen?_near {k : Nat} (hk : k ≤ 308) : ∃ x, powerOfTen? k = some x ∧
    7 / 8 * (10 : ℚ) ^ k ≤ x.magnitude ∧ x.magnitude ≤ 9 / 8 * 10 ^ k := by
  have hle : (10 : ℚ) ^ k ≤ 10 ^ 308 := pow_le_pow_right₀ (by norm_num) hk
  have hsafe := lt_safe
  have hpos : (0 : ℚ) < 10 ^ 308 := by positivity
  generalize (10 : ℚ) ^ 308 = p at *
  have hlt : ((Nat.pow 10 k : Nat) : ℚ) < safe := by
    rw [Nat.pow_eq, Nat.cast_pow]
    push_cast
    linarith
  obtain ⟨x, hx, hge, hle⟩ := Binary64.ofNat?_near (Nat.pow_pos (by decide)) hlt
  rw [Nat.cast_pow] at hge hle
  exact ⟨x, hx, hge, hle⟩

theorem ten_pow_le_safe {k : Nat} (hk : k ≤ 307) : (10 : ℚ) ^ k * 10 < safe := by
  have hle : (10 : ℚ) ^ k * 10 ≤ 10 ^ 308 := by
    rw [← pow_succ]
    exact pow_le_pow_right₀ (by norm_num) (by omega)
  have hsafe := lt_safe
  have hpos : (0 : ℚ) < 10 ^ 308 := by positivity
  generalize (10 : ℚ) ^ 308 = p at *
  linarith

theorem wordMax_le : (wordMax : ℚ) ≤ 10 ^ 20 := by
  rw [wordMax, UInt64.size]
  norm_num

/-- A quotient by a power of ten, of which a double holds all that is asked for. -/
theorem div_powerOfTen? {k : Nat} (hk : k ≤ 308) (hx : x.magnitude ≤ 10 ^ 30) :
    ∃ y z, powerOfTen? k = some y ∧ x.div? y = some z ∧ z.magnitude ≤ 2 * x.magnitude + 1 := by
  obtain ⟨y, hy, hge, _⟩ := powerOfTen?_near hk
  have hone : (1 : ℚ) ≤ 10 ^ k := one_le_pow₀ (by norm_num)
  have hpos : 0 < y.magnitude := by linarith
  have hnonneg := x.magnitude_nonneg
  have hquotient : x.magnitude / y.magnitude ≤ 8 / 7 * x.magnitude := by
    rw [div_le_iff₀ hpos]
    nlinarith
  cases hz : x.div? y with
  | none =>
    have hle := Binary64.le_of_div?_eq_none hpos hz
    have hsafe := ten_pow_le_safe (k := 30) (by decide)
    linarith
  | some z =>
    refine ⟨y, z, hy, hz, ?_⟩
    have hmax : max 1 (x.magnitude / y.magnitude) ≤ 1 + 8 / 7 * x.magnitude :=
      max_le (by linarith) (by linarith)
    have hnear := (abs_le.mp (Binary64.of_div? hpos hz)).2
    linarith

theorem scaleDown?_isSome (hx : x.magnitude ≤ 10 ^ 20 * (9 / 8)) (k : Nat) :
    ∃ z, scaleDown? x k = some z := by
  unfold scaleDown?
  split
  · rename_i hk
    obtain ⟨y, z, hy, hz, _⟩ := div_powerOfTen? hk (x := x) (by linarith)
    exact ⟨z, by simp [hy, hz]⟩
  · split
    · obtain ⟨y, z, hy, hz, hle⟩ := div_powerOfTen? (le_refl 308) (x := x) (by linarith)
      obtain ⟨y', z', hy', hz', _⟩ := div_powerOfTen? (k := k - 308) (by omega) (x := z)
        (by linarith)
      exact ⟨z', by simp [hy, hz, hy', hz']⟩
    · exact ⟨_, rfl⟩

theorem ofNat?_word {n : Nat} (hn : 0 < n) (h : n ≤ wordMax) : ∃ x, Binary64.ofNat? n = some x ∧
    x.isZero = false ∧ 7 / 8 * (n : ℚ) ≤ x.magnitude ∧ x.magnitude ≤ 9 / 8 * n := by
  have hone : (1 : ℚ) ≤ n := by exact_mod_cast hn
  have hword : (n : ℚ) ≤ wordMax := by exact_mod_cast h
  have hmax := wordMax_le
  have hsafe := ten_pow_le_safe (k := 20) (by decide)
  obtain ⟨x, hx, hge, hle⟩ := Binary64.ofNat?_near hn (by linarith)
  have hpos : 0 < x.magnitude := by linarith
  refine ⟨x, hx, ?_, hge, hle⟩
  simpa [Binary64.isZero] using (Binary64.magnitude_pos_iff.mp hpos).ne'

section

variable {e : Int}

/-- A number times a power of ten is too large for a double if the double of it is. -/
theorem le_of_scale?_eq_none (h : n ≤ wordMax) (hs : scale? n e = none) :
    safe * (64 / 81) ≤ n * 10 ^ e := by
  rcases Nat.eq_zero_or_pos n with rfl | hn
  · cases hs
  obtain ⟨x, hx, hzero, _, hxle⟩ := ofNat?_word hn h
  have hone : (1 : ℚ) ≤ n := by exact_mod_cast hn
  have hmax := wordMax_le
  have hword : (n : ℚ) ≤ wordMax := by exact_mod_cast h
  unfold scale? at hs
  simp only [hx, hzero, Option.bind_eq_bind, Option.bind_some, Bool.false_eq_true, if_false] at hs
  split at hs
  · rename_i he
    obtain ⟨k, rfl⟩ := Int.eq_ofNat_of_zero_le he
    rw [zpow_natCast]
    split at hs
    · rename_i hk
      obtain ⟨y, hy, _, hyle⟩ := powerOfTen?_near (k := k) (by omega)
      simp only [Int.toNat_natCast, hy, Option.bind_some] at hs
      have hsafe := Binary64.le_of_mul?_eq_none hs
      have hproduct : x.magnitude * y.magnitude ≤ (9 / 8 * n) * (9 / 8 * 10 ^ k) :=
        mul_le_mul hxle hyle y.magnitude_nonneg (by positivity)
      linarith
    · rename_i hk
      have hpow : (10 : ℚ) ^ 309 ≤ 10 ^ k := pow_le_pow_right₀ (by norm_num) (by omega)
      have hsafe := safe_le
      have hpos : (0 : ℚ) < 10 ^ 309 := by positivity
      generalize (10 : ℚ) ^ 309 = p at *
      nlinarith
  · obtain ⟨z, hz⟩ := scaleDown?_isSome (x := x) (by linarith) (-e).toNat
    cases hs.symm.trans hz

theorem le_of_scale? {z : Binary64} (h : n ≤ wordMax) (hs : scale? n e = some z) :
    (n : ℚ) * 10 ^ e ≤ limit * (64 / 49) := by
  have hlimit : safe ≤ limit := sub_le_self _ (by positivity)
  have hsafe := ten_pow_le_safe (k := 20) (by decide)
  rcases Nat.eq_zero_or_pos n with rfl | hn
  · rw [Nat.cast_zero, zero_mul]
    linarith
  obtain ⟨x, hx, hzero, hxge, _⟩ := ofNat?_word hn h
  have hmax := wordMax_le
  have hword : (n : ℚ) ≤ wordMax := by exact_mod_cast h
  unfold scale? at hs
  simp only [hx, hzero, Option.bind_eq_bind, Option.bind_some, Bool.false_eq_true, if_false] at hs
  split at hs
  · rename_i he
    obtain ⟨k, rfl⟩ := Int.eq_ofNat_of_zero_le he
    rw [zpow_natCast]
    split at hs
    · obtain ⟨y, hy, hyge, _⟩ := powerOfTen?_near (k := k) (by omega)
      simp only [Int.toNat_natCast, hy, Option.bind_some] at hs
      have hlt := Binary64.lt_of_mul? hs
      have hproduct : (7 / 8 * n) * (7 / 8 * 10 ^ k) ≤ x.magnitude * y.magnitude :=
        mul_le_mul hxge hyge (by positivity) x.magnitude_nonneg
      linarith
    · cases hs
  · have hpow : (10 : ℚ) ^ e ≤ 1 := zpow_le_one_of_nonpos₀ (by norm_num) (by omega)
    have hle : (n : ℚ) * 10 ^ e ≤ n := mul_le_of_le_one_right (Nat.cast_nonneg n) hpow
    linarith

end

/-! ## Numbers -/

section

variable {l : Literal}

/-- A number that is made of decimal digits. -/
structure Digital (l : Literal) : Prop where
  whole : ∀ d ∈ l.whole, d ≤ 9
  fraction : ∀ d ∈ l.fraction, d ≤ 9

theorem Digital.scaled (hd : l.Digital) : ∃ (n : Nat) (e : Int), n ≤ wordMax ∧
    l.float? = (scale? n e).map (fun x => .float { x with negative := l.negative }) ∧
      7 * l.magnitude ≤ 8 * (n * 10 ^ e) ∧ 8 * ((n : ℚ) * 10 ^ e) ≤ 9 * l.magnitude := by
  obtain ⟨n₁, u, h₁⟩ : ∃ n₁ u, gather 0 l.whole = (n₁, u) := ⟨_, _, rfl⟩
  obtain ⟨n₂, g, h₂⟩ : ∃ n₂ g, gather n₁ l.fraction = (n₂, g) := ⟨_, _, rfl⟩
  have hwhole := gathers (n := 0) hd.whole
  have hfraction := gathers (n := n₁) hd.fraction
  have hword₁ : (gather 0 l.whole).1 ≤ wordMax := gather_le (Nat.zero_le _)
  have hword₂ : n₁ ≤ wordMax → (gather n₁ l.fraction).1 ≤ wordMax := gather_le
  rw [h₁] at hwhole hword₁
  rw [h₂] at hfraction hword₂
  obtain ⟨hge, hle⟩ := Gathers.near hd.fraction hwhole hfraction
  have hscale : (n₂ : ℚ) * 10 ^ ((u : Int) - ((l.fraction.length : Int) - g) + l.exponent) =
      (n₂ * 10 ^ (g + u) : Nat) * 10 ^ (l.exponent - l.fraction.length) := by
    have hsum : (u : Int) - ((l.fraction.length : Int) - g) + l.exponent =
        (g + u : Nat) + (l.exponent - l.fraction.length) := by
      push_cast
      omega
    rw [hsum, zpow_add₀ (by norm_num), zpow_natCast]
    push_cast
    ring
  have hpos : (0 : ℚ) < 10 ^ (l.exponent - l.fraction.length) := by positivity
  refine ⟨n₂, u - (l.fraction.length - g) + l.exponent, hword₂ hword₁, ?_, ?_, ?_⟩
  · unfold float?
    simp only [h₁, h₂]
    exact (Option.map_eq_bind ..).symm
  · rw [hscale, magnitude, ← mul_assoc, ← mul_assoc]
    exact mul_le_mul_of_nonneg_right (by exact_mod_cast hge) hpos.le
  · rw [hscale, magnitude, ← mul_assoc, ← mul_assoc]
    exact mul_le_mul_of_nonneg_right (by exact_mod_cast hle) hpos.le

theorem Digital.le_of_value?_eq_none (hd : l.Digital) (h : l.value? = none) :
    10 ^ 308 ≤ l.magnitude := by
  have hfloat : l.float? = none := by
    unfold value? at h
    simp only at h
    split at h
    · exact h
    · split at h
      · cases h
      · split at h
        · cases h
        · exact h
  obtain ⟨n, e, hn, hscale, _, hle⟩ := hd.scaled
  rw [hscale, Option.map_eq_none_iff] at hfloat
  have hlarge := le_of_scale?_eq_none hn hfloat
  have hsafe := lt_safe
  generalize (10 : ℚ) ^ 308 = p at *
  linarith

theorem Digital.lt_of_float? {n : Number} (hd : l.Digital) (h : l.float? = some n) :
    l.magnitude < 10 ^ 309 := by
  obtain ⟨m, e, hm, hscale, hge, _⟩ := hd.scaled
  rw [hscale] at h
  obtain ⟨x, hx, _⟩ := Option.map_eq_some_iff.mp h
  have hle := le_of_scale? hm hx
  have hlimit := limit_lt
  have hpos : 0 < limit := by
    unfold limit
    positivity
  generalize (10 : ℚ) ^ 309 = p at *
  linarith

end

end Literal

open Literal

namespace Grammar

variable {l : Literal} {ds : List Char} {n : Number}

theorem Digits.le_nine (h : Digits ds) : ∀ d ∈ digits ds, d ≤ 9 := by
  intro d hd
  obtain ⟨c, hc, rfl⟩ := List.mem_map.mp hd
  have hdigit := h.digit c hc
  simp only [Char.isDigit, Bool.and_eq_true, decide_eq_true_eq] at hdigit
  have hle : c.toNat ≤ '9'.toNat := hdigit.2
  have hnine : '9'.toNat - '0'.toNat = 9 := rfl
  omega

theorem Numeral.digital (h : Numeral l ds) : l.Digital := by
  obtain ⟨negative, hw, _, hf, _⟩ := h
  refine ⟨hw.le_nine, ?_⟩
  cases hf with
  | none => nofun
  | some hd => exact hd.le_nine

/-- A number below `10 ^ 308` has a value. -/
theorem Numeral.value?_isSome (h : Numeral l ds) (hl : l.magnitude < 10 ^ 308) :
    ∃ n, l.value? = some n := by
  cases hv : l.value? with
  | none => exact absurd hl (not_lt.mpr (h.digital.le_of_value?_eq_none hv))
  | some n => exact ⟨n, rfl⟩

theorem Numeral.eq_of_not_pointed (h : Numeral l ds) (hp : l.pointed = false) :
    l.fraction = [] ∧ l.exponent = 0 := by
  obtain ⟨negative, _, _, hf, he⟩ := h
  rename_i whole fraction point power exponent
  simp only [Bool.or_eq_false_iff, Bool.not_eq_false', List.isEmpty_iff,
    Option.isSome_eq_false_iff, Option.isNone_iff_eq_none] at hp
  obtain ⟨rfl, rfl⟩ := hp
  exact ⟨rfl, rfl⟩

/-- A number that has a value is below `10 ^ 309`. -/
theorem Numeral.magnitude_lt (h : Numeral l ds) (hv : l.value? = some n) :
    l.magnitude < 10 ^ 309 := by
  unfold value? at hv
  simp only at hv
  split at hv
  · exact h.digital.lt_of_float? hv
  · rename_i hshort
    -- An integer of which all digits were gathered fits a word.
    simp only [Bool.or_eq_true, decide_eq_true_eq, not_or, Bool.not_eq_true, Nat.not_lt,
      Nat.le_zero] at hshort
    obtain ⟨hpointed, hall⟩ := hshort
    obtain ⟨hfraction, hexponent⟩ := h.eq_of_not_pointed hpointed
    have hgathers := gathers (n := 0) h.digital.whole
    have hword : (gather 0 l.whole).1 ≤ wordMax := gather_le (Nat.zero_le _)
    rw [hall] at hgathers
    rw [hgathers.eq_of_zero] at hword
    have hmagnitude : l.magnitude = extend 0 l.whole := by
      simp [magnitude, hfraction, hexponent]
    have hle : (extend 0 l.whole : ℚ) ≤ wordMax := by exact_mod_cast hword
    have hmax := wordMax_le
    have hsafe := ten_pow_le_safe (k := 20) (by decide)
    have hlarge := safe_le
    rw [hmagnitude]
    generalize (10 : ℚ) ^ 309 = p at *
    linarith

end Grammar

/-! ## Trees -/

mutual

def Tree.literals : Tree → List Literal
  | .number l => [l]
  | .array items => itemLiterals items
  | .object entries => entryLiterals entries
  | .null | .bool _ | .string _ => []

def itemLiterals : List Tree → List Literal
  | [] => []
  | t :: items => t.literals ++ itemLiterals items

def entryLiterals : List (String × Tree) → List Literal
  | [] => []
  | (_, t) :: entries => t.literals ++ entryLiterals entries

end

mutual

/-- A tree has a value just if all of its numbers do. -/
theorem Tree.isSome_value? : ∀ t : Tree, t.value?.isSome = t.literals.all (·.value?.isSome)
  | .null | .bool _ | .string _ => rfl
  | .number l => by simp [Tree.value?, Tree.literals]
  | .array items => by simp [Tree.value?, Tree.literals, isSome_itemValues? items]
  | .object entries => by simp [Tree.value?, Tree.literals, isSome_entryValues? entries]

theorem isSome_itemValues? : ∀ items : List Tree,
    (itemValues? items).isSome = (itemLiterals items).all (·.value?.isSome)
  | [] => rfl
  | t :: items => by
    have hfirst := t.isSome_value?
    have hrest := isSome_itemValues? items
    rw [itemLiterals, List.all_append, ← hfirst, ← hrest, itemValues?]
    cases t.value? <;> simp

theorem isSome_entryValues? : ∀ entries : List (String × Tree),
    (entryValues? entries).isSome = (entryLiterals entries).all (·.value?.isSome)
  | [] => rfl
  | (key, t) :: entries => by
    have hfirst := t.isSome_value?
    have hrest := isSome_entryValues? entries
    rw [entryLiterals, List.all_append, ← hfirst, ← hrest, entryValues?]
    cases t.value? <;> simp

end

namespace Grammar

mutual

theorem Written.numeral (t : Tree) {cs rest : List Char} (h : Written t cs rest) :
    ∀ l ∈ t.literals, ∃ ds, Numeral l ds := by
  cases t with
  | null | bool | string => nofun
  | number l =>
    cases h with
    | @number _ ds _ h => exact List.forall_mem_singleton.mpr ⟨ds, h⟩
  | array items =>
    cases h with
    | emptyArray => nofun
    | array h => exact WrittenItems.numeral items h
  | object entries =>
    cases h with
    | emptyObject => nofun
    | object h => exact WrittenEntries.numeral entries h

theorem WrittenItems.numeral (items : List Tree) {cs rest : List Char}
    (h : WrittenItems items cs rest) : ∀ l ∈ itemLiterals items, ∃ ds, Numeral l ds := by
  cases items with
  | nil => nofun
  | cons t items =>
    rw [itemLiterals, List.forall_mem_append]
    cases h with
    | last _ ht => exact ⟨Written.numeral t ht, nofun⟩
    | cons _ ht _ hs => exact ⟨Written.numeral t ht, WrittenItems.numeral items hs⟩

theorem WrittenEntries.numeral (entries : List (String × Tree)) {cs rest : List Char}
    (h : WrittenEntries entries cs rest) : ∀ l ∈ entryLiterals entries, ∃ ds, Numeral l ds := by
  cases entries with
  | nil => nofun
  | cons first entries =>
    obtain ⟨key, t⟩ := first
    rw [entryLiterals, List.forall_mem_append]
    cases h with
    | last _ _ _ _ ht => exact ⟨Written.numeral t ht, nofun⟩
    | cons _ _ _ _ ht _ hs => exact ⟨Written.numeral t ht, WrittenEntries.numeral entries hs⟩

end

variable {t : Tree} {text : String}

/-- A document has a value if none of its numbers reaches `10 ^ 308`. -/
theorem Document.value?_isSome (h : Document t text)
    (hl : ∀ l ∈ t.literals, l.magnitude < 10 ^ 308) : ∃ v, t.value? = some v := by
  obtain ⟨cs, rest, _, ht, _⟩ := h
  rw [← Option.isSome_iff_exists, t.isSome_value?, List.all_eq_true]
  intro l hmem
  obtain ⟨ds, hds⟩ := Written.numeral t ht l hmem
  exact Option.isSome_iff_exists.mpr (hds.value?_isSome (hl l hmem))

/-- No number of a document that has a value reaches `10 ^ 309`. -/
theorem Document.magnitude_lt {v : Value} (h : Document t text) (hv : t.value? = some v) :
    ∀ l ∈ t.literals, l.magnitude < 10 ^ 309 := by
  obtain ⟨cs, rest, _, ht, _⟩ := h
  intro l hmem
  have hall := t.isSome_value?
  rw [hv, Option.isSome_some, eq_comm, List.all_eq_true] at hall
  obtain ⟨n, hn⟩ := Option.isSome_iff_exists.mp (hall l hmem)
  obtain ⟨ds, hds⟩ := Written.numeral t ht l hmem
  exact hds.magnitude_lt hn

end Grammar

end LivePlayback.Json
