import LivePlayback.Decimal.Binary64
import Mathlib.Algebra.Order.Field.Power
import Mathlib.Data.Nat.Cast.Order.Field
import Mathlib.Data.Rat.Lemmas
import Mathlib.Tactic.FieldSimp
import Mathlib.Tactic.Linarith
import Mathlib.Tactic.NormNum
import Mathlib.Tactic.Positivity
import Mathlib.Tactic.Ring

/-!
# How far rounding goes

A quotient is rounded to a double that is not far from it, unless it is too large for one. The
bounds are coarse where they only serve to tell which numbers are too large.
-/

namespace LivePlayback.Decimal.Binary64
set_option autoImplicit false

/-- The number without its sign. -/
def magnitude (x : Binary64) : ℚ := x.significand * 2 ^ x.exponent

theorem magnitude_nonneg (x : Binary64) : 0 ≤ x.magnitude := by
  unfold magnitude
  positivity

variable {num den : Nat}

/-- No number below this one is too large. -/
def safe : ℚ := 2 ^ 1024 - 2 ^ 971

/-- Every number from this one on is too large. -/
def limit : ℚ := 2 ^ 1024

theorem one_lt_safe : 1 < safe := by
  have hlt : 1 + 2 ^ 971 < 2 ^ 1024 := by decide +kernel
  exact lt_sub_iff_add_lt.mpr (by exact_mod_cast hlt)

theorem powerOfTwo_div (e : Int) : ((powerOfTwo e).1 : ℚ) / (powerOfTwo e).2 = 2 ^ e := by
  obtain ⟨n, rfl | rfl⟩ := e.eq_nat_or_neg <;> simp [powerOfTwo, zpow_neg]

theorem powerOfTwo_pos (e : Int) : 0 < (powerOfTwo e).1 ∧ 0 < (powerOfTwo e).2 :=
  ⟨Nat.pow_pos (by decide), Nat.pow_pos (by decide)⟩

/-- Numerator and denominator scaled by a power of two. -/
theorem scaled_div (num den : Nat) (e : Int) :
    ((num * (powerOfTwo e).1 : Nat) : ℚ) / (den * (powerOfTwo e).2 : Nat) =
      (num : ℚ) / den * 2 ^ e := by
  rw [← powerOfTwo_div]
  push_cast
  exact mul_div_mul_comm ..

theorem unscaled_div (num den : Nat) (e : Int) :
    ((num * (powerOfTwo e).2 : Nat) : ℚ) / (den * (powerOfTwo e).1 : Nat) =
      (num : ℚ) / den / 2 ^ e := by
  rw [← powerOfTwo_div, div_div_div_eq]
  push_cast
  rfl

/-- Twice the denominator makes integers of a quotient and its halves. -/
theorem gap_mul (n num : Nat) (hd : 0 < den) : |(n : ℚ) - num / den| * (2 * den) =
    (|2 * (n * den : Int) - 2 * num| : Int) := by
  have hd' : (0 : ℚ) < den := by exact_mod_cast hd
  rw [← abs_of_pos (mul_pos two_pos hd'), ← abs_mul]
  push_cast
  congr 1
  field_simp

theorem nearest_iff {n : Nat} (hd : 0 < den) : |(n : ℚ) - num / den| ≤ 1 / 2 ↔
    |2 * (n * den : Int) - 2 * num| ≤ den := by
  have hd' : (0 : ℚ) < 2 * den := by exact_mod_cast Nat.mul_pos Nat.two_pos hd
  have hhalf : 1 / 2 * (2 * (den : ℚ)) = den := by ring
  rw [← mul_le_mul_iff_left₀ hd', gap_mul n num hd, hhalf]
  exact_mod_cast Iff.rfl

/-- No integer is nearer to a quotient than the one it is rounded to. -/
theorem roundDiv_nearest (num : Nat) (hd : 0 < den) :
    |(roundDiv num den : ℚ) - num / den| ≤ 1 / 2 := by
  obtain ⟨q, hq⟩ : ∃ q, q = num / den := ⟨_, rfl⟩
  obtain ⟨r, hr⟩ : ∃ r, r = num % den := ⟨_, rfl⟩
  have hnum : q * den + r = num := by rw [hq, hr, Nat.div_add_mod']
  have hlt : r < den := hr ▸ Nat.mod_lt num hd
  have hup : (q + 1) * den = q * den + den := Nat.succ_mul q den
  have htwice : 2 * num ≤ 2 * (roundDiv num den * den) + den ∧
      2 * (roundDiv num den * den) ≤ 2 * num + den := by
    unfold roundDiv
    simp only [← hq, ← hr]
    split
    · omega
    · split
      · omega
      · split <;> omega
  rw [nearest_iff hd, abs_le]
  omega

/-- An integer nearest to a number that is close enough to a quotient is nearest to the quotient. -/
theorem nearest_of_close {n : Nat} {x : ℚ} (hd : 0 < den) (hn : |(n : ℚ) - x| ≤ 1 / 2)
    (hx : |x - num / den| < 1 / (2 * den)) : |(n : ℚ) - num / den| ≤ 1 / 2 := by
  have hd' : (0 : ℚ) < den := by exact_mod_cast hd
  have hclose : |(n : ℚ) - num / den| < 1 / 2 + 1 / (2 * den) :=
    calc |(n : ℚ) - num / den|
      _ ≤ |(n : ℚ) - x| + |x - num / den| := abs_sub_le ..
      _ < 1 / 2 + 1 / (2 * den) := add_lt_add_of_le_of_lt hn hx
  have hgap : (1 / 2 + 1 / (2 * (den : ℚ))) * (2 * den) = den + 1 := by field_simp
  -- Times twice the denominator both sides are integers, and less than one more is no more.
  have hlt := mul_lt_mul_of_pos_right hclose (by positivity : (0 : ℚ) < 2 * den)
  rw [gap_mul n num hd, hgap] at hlt
  rw [nearest_iff hd, ← Int.lt_add_one_iff]
  exact_mod_cast hlt

theorem roundDiv_bounds (num : Nat) (hd : 0 < den) :
    (num : ℚ) / den - 1 ≤ roundDiv num den ∧ (roundDiv num den : ℚ) ≤ num / den + 1 := by
  have hnearest := abs_le.mp (roundDiv_nearest num hd)
  constructor <;> linarith

theorem two_zpow_log2_le (hn : 0 < num) : (2 : ℚ) ^ (num.log2 : Int) ≤ num := by
  rw [zpow_natCast]
  exact_mod_cast Nat.log2_self_le hn.ne'

theorem lt_two_zpow_log2 (num : Nat) : (num : ℚ) < 2 ^ (num.log2 + 1 : Int) := by
  have hlt : (num : ℚ) < 2 ^ (num.log2 + 1) := by exact_mod_cast Nat.lt_log2_self
  exact_mod_cast hlt

theorem two_pow_mul_zpow (n : Nat) (e : Int) : (2 : ℚ) ^ n * 2 ^ e = 2 ^ (n + e) := by
  rw [zpow_add₀ two_ne_zero, zpow_natCast]

/-- The lengths of two numbers leave two exponents for their quotient. -/
theorem guess_bounds (hn : 0 < num) (hd : 0 < den) {guess : Int}
    (hg : guess = (num.log2 : Int) - den.log2 - 52) :
    (2 : ℚ) ^ 52 * 2 ^ (guess - 1) ≤ num / den ∧ (num : ℚ) / den < 2 ^ 53 * 2 ^ guess := by
  have hd' : (0 : ℚ) < den := by exact_mod_cast hd
  constructor
  · calc (2 : ℚ) ^ 52 * 2 ^ (guess - 1)
      _ = 2 ^ (num.log2 : Int) / 2 ^ (den.log2 + 1 : Int) := by
        rw [two_pow_mul_zpow, ← zpow_sub₀ two_ne_zero]
        congr 1
        push_cast
        omega
      _ ≤ num / den :=
        div_le_div₀ (Nat.cast_nonneg _) (two_zpow_log2_le hn) hd' (lt_two_zpow_log2 den).le
  · calc (num : ℚ) / den
      _ < 2 ^ (num.log2 + 1 : Int) / 2 ^ (den.log2 : Int) :=
        div_lt_div₀ (lt_two_zpow_log2 num) (two_zpow_log2_le hd) (by positivity) (by positivity)
      _ = 2 ^ 53 * 2 ^ guess := by
        rw [two_pow_mul_zpow, ← zpow_sub₀ two_ne_zero]
        congr 1
        push_cast
        omega

/-- At its target exponent a quotient has at most 53 bits, and no fewer but at the least one. -/
theorem targetExponent_bounds (hn : 0 < num) (hd : 0 < den) :
    (num : ℚ) / den < 2 ^ 53 * 2 ^ targetExponent num den ∧
      (targetExponent num den = minExponent ∨
        (2 : ℚ) ^ 52 * 2 ^ targetExponent num den ≤ num / den) := by
  obtain ⟨guess, hg⟩ : ∃ g : Int, g = (num.log2 : Int) - den.log2 - 52 := ⟨_, rfl⟩
  obtain ⟨hlow, hhigh⟩ := guess_bounds hn hd hg
  obtain ⟨e, he⟩ : ∃ e : Int, e = if num * (powerOfTwo guess).2 / (den * (powerOfTwo guess).1) <
      hiddenBit then guess - 1 else guess := ⟨_, rfl⟩
  have htarget : targetExponent num den = max e minExponent := by
    rw [he, hg]
    rfl
  have hquotient : num * (powerOfTwo guess).2 / (den * (powerOfTwo guess).1) < hiddenBit ↔
      (num : ℚ) / den < 2 ^ 52 * 2 ^ guess := by
    obtain ⟨hup, hdown⟩ := powerOfTwo_pos guess
    have hhidden : hiddenBit = 2 ^ 52 := rfl
    rw [Nat.div_lt_iff_lt_mul (Nat.mul_pos hd hup), ← powerOfTwo_div, ← mul_div_assoc,
      div_lt_div_iff₀ (by exact_mod_cast hd) (by exact_mod_cast hdown), mul_assoc, hhidden,
      Nat.mul_comm den]
    exact_mod_cast Iff.rfl
  have hbounds : (2 : ℚ) ^ 52 * 2 ^ e ≤ num / den ∧ (num : ℚ) / den < 2 ^ 53 * 2 ^ e := by
    rw [he]
    split
    · rename_i h
      refine ⟨hlow, ?_⟩
      have hlt := hquotient.mp h
      rw [two_pow_mul_zpow] at hlt ⊢
      convert hlt using 2
      push_cast
      omega
    · rename_i h
      exact ⟨not_lt.mp (mt hquotient.mpr h), hhigh⟩
  rw [htarget]
  rcases max_choice e minExponent with hmax | hmax
  · rw [hmax]
    exact ⟨hbounds.2, .inr hbounds.1⟩
  · have hle : e ≤ minExponent := hmax ▸ le_max_left e minExponent
    rw [hmax]
    refine ⟨hbounds.2.trans_le ?_, .inl rfl⟩
    gcongr
    norm_num

variable {negative : Bool} {e : Int}

/-- A significand at an exponent, before it may be carried into the next one. -/
structure Rounds (x : ℚ) (m : Nat) (t : Int) : Prop where
  le : (m : ℚ) * 2 ^ t ≤ x + 2 ^ t
  ge : x - 2 ^ t ≤ m * 2 ^ t
  lt : x < 2 ^ 53 * 2 ^ t
  full : t = minExponent ∨ (2 : ℚ) ^ 52 * 2 ^ t ≤ x

/-- The exponent after the significand was carried. -/
def carried (m : Nat) (t : Int) : Int := if m = 2 * hiddenBit then t + 1 else t

theorem ofRatio?_eq (negative : Bool) (e : Int) (hn : 0 < num) (hd : 0 < den) :
    ∃ m t, Rounds (num / den * 2 ^ e) m t ∧ ofRatio? negative num den e =
      if maxExponent < carried m t then none
      else some ⟨negative, if m = 2 * hiddenBit then hiddenBit else m, carried m t⟩ := by
  obtain ⟨hup, hdown⟩ := powerOfTwo_pos e
  have hn' : 0 < num * (powerOfTwo e).1 := Nat.mul_pos hn hup
  have hd' : 0 < den * (powerOfTwo e).2 := Nat.mul_pos hd hdown
  obtain ⟨t, ht⟩ : ∃ t, t = targetExponent (num * (powerOfTwo e).1) (den * (powerOfTwo e).2) :=
    ⟨_, rfl⟩
  obtain ⟨m, hm⟩ : ∃ m, m = roundDiv (num * (powerOfTwo e).1 * (powerOfTwo t).2)
    (den * (powerOfTwo e).2 * (powerOfTwo t).1) := ⟨_, rfl⟩
  obtain ⟨hlt, hfull⟩ := targetExponent_bounds hn' hd'
  obtain ⟨hge, hle⟩ := roundDiv_bounds (num * (powerOfTwo e).1 * (powerOfTwo t).2)
    (Nat.mul_pos hd' (powerOfTwo_pos t).1)
  rw [← ht, scaled_div] at hlt hfull
  rw [← hm, unscaled_div, scaled_div] at hge hle
  have hpos : (0 : ℚ) < 2 ^ t := by positivity
  refine ⟨m, t, ⟨?_, ?_, hlt, hfull⟩, ?_⟩
  · rwa [div_add_one hpos.ne', le_div_iff₀ hpos] at hle
  · rwa [div_sub_one hpos.ne', div_le_iff₀ hpos] at hge
  · unfold ofRatio? carried
    rw [if_neg hn.ne']
    simp only [← ht, ← hm]
    split <;> rfl

variable {x : ℚ} {m : Nat} {t : Int}

theorem Rounds.two_zpow_le (h : Rounds x m t) : (2 : ℚ) ^ t ≤ max 1 x / 8 := by
  have hpos : (0 : ℚ) < 2 ^ t := by positivity
  rcases h.full with rfl | hfull
  · calc (2 : ℚ) ^ minExponent
      _ ≤ 2 ^ (-3 : Int) := zpow_le_zpow_right₀ one_le_two (by decide)
      _ = 1 / 8 := by norm_num
      _ ≤ max 1 x / 8 := by gcongr; exact le_max_left 1 x
  · have hmax : x ≤ max 1 x := le_max_right 1 x
    linarith

/-- The least number that is too large is not far below the 1024th power of two. -/
theorem Rounds.le_of_overflow (h : Rounds x m t) (ht : maxExponent < carried m t) :
    safe ≤ x := by
  have hmax : maxExponent = 971 := rfl
  unfold carried at ht
  rcases lt_or_ge maxExponent t with hlt | hge
  · have hfull : (2 : ℚ) ^ 52 * 2 ^ t ≤ x := by
      rcases h.full with rfl | hfull
      · exact absurd hlt (by decide)
      · exact hfull
    calc safe
      _ ≤ 2 ^ 1024 := sub_le_self _ (by positivity)
      _ = 2 ^ 52 * 2 ^ (972 : Int) := by
        rw [two_pow_mul_zpow]
        rfl
      _ ≤ 2 ^ 52 * 2 ^ t := by
        gcongr
        · exact one_le_two
        · omega
      _ ≤ x := hfull
  · split at ht
    · rename_i hm
      have ht : t = 971 := by omega
      have hle := h.le
      subst hm ht
      have hfull : ((2 * hiddenBit : Nat) : ℚ) * 2 ^ (971 : Int) = 2 ^ 1024 := by
        have hbits : ((2 * hiddenBit : Nat) : ℚ) = 2 ^ 53 := by norm_num [hiddenBit]
        rw [hbits, two_pow_mul_zpow]
        rfl
      have hlast : (2 : ℚ) ^ (971 : Int) = 2 ^ 971 := rfl
      rw [hfull, hlast] at hle
      exact sub_le_iff_le_add.mpr hle
    · omega

theorem Rounds.lt_of_fits (h : Rounds x m t) (ht : ¬ maxExponent < carried m t) :
    x < limit := by
  have hmax : maxExponent = 971 := rfl
  have hle : t ≤ 971 := by
    unfold carried at ht
    split at ht <;> omega
  calc x
    _ < 2 ^ 53 * 2 ^ t := h.lt
    _ ≤ 2 ^ 53 * 2 ^ (971 : Int) := by
      gcongr
      exact one_le_two
    _ = 2 ^ 1024 := by
      rw [two_pow_mul_zpow]
      rfl

theorem magnitude_carried (negative : Bool) (m : Nat) (t : Int) :
    magnitude ⟨negative, if m = 2 * hiddenBit then hiddenBit else m, carried m t⟩ = m * 2 ^ t := by
  unfold magnitude carried
  split
  · rename_i hm
    subst hm
    simp only [zpow_add_one₀ (two_ne_zero (α := ℚ))]
    push_cast
    ring
  · rfl

/-! ## Quotients -/

theorem le_of_ofRatio?_eq_none (hd : 0 < den) (h : ofRatio? negative num den e = none) :
    safe ≤ (num : ℚ) / den * 2 ^ e := by
  rcases Nat.eq_zero_or_pos num with rfl | hn
  · cases h
  · obtain ⟨m, t, hr, heq⟩ := ofRatio?_eq negative e hn hd
    rw [heq] at h
    split at h
    · rename_i ht
      exact hr.le_of_overflow ht
    · cases h

/-- A quotient that is rounded was not too large, and it does not change much. -/
theorem of_ofRatio? {r : Binary64} (hd : 0 < den) (h : ofRatio? negative num den e = some r) :
    (num : ℚ) / den * 2 ^ e < limit ∧
      |r.magnitude - num / den * 2 ^ e| ≤ max 1 ((num : ℚ) / den * 2 ^ e) / 8 := by
  rcases Nat.eq_zero_or_pos num with rfl | hn
  · cases h
    have hlimit : (0 : ℚ) < limit := by
      unfold limit
      positivity
    refine ⟨by simpa using hlimit, ?_⟩
    norm_num [magnitude]
  · obtain ⟨m, t, hr, heq⟩ := ofRatio?_eq negative e hn hd
    rw [heq] at h
    split at h
    · cases h
    · rename_i ht
      cases h
      refine ⟨hr.lt_of_fits ht, ?_⟩
      rw [magnitude_carried, abs_le]
      have hstep := hr.two_zpow_le
      have hle := hr.le
      have hge := hr.ge
      constructor <;> linarith

/-- Above the least doubles, rounding does not change the first 52 bits by more than a unit. -/
theorem exists_ofRatio? (hn : 0 < num) (hd : 0 < den)
    (hlow : (2 : ℚ) ^ 52 * 2 ^ minExponent ≤ num / den * 2 ^ e)
    (hhigh : (num : ℚ) / den * 2 ^ e < safe) :
    ∃ r, ofRatio? negative num den e = some r ∧
      |r.magnitude - num / den * 2 ^ e| ≤ num / den * 2 ^ e / 2 ^ 52 := by
  obtain ⟨m, t, hr, heq⟩ := ofRatio?_eq negative e hn hd
  have hfits : ¬ maxExponent < carried m t := by
    intro ht
    exact absurd hhigh (not_lt.mpr (hr.le_of_overflow ht))
  rw [if_neg hfits] at heq
  have hstep : (2 : ℚ) ^ t ≤ num / den * 2 ^ e / 2 ^ 52 := by
    rw [le_div_iff₀ (by positivity), mul_comm]
    rcases hr.full with rfl | hfull
    · exact hlow
    · exact hfull
  refine ⟨_, heq, ?_⟩
  have hle := hr.le
  have hge := hr.ge
  rw [magnitude_carried, abs_le]
  constructor <;> linarith

section

variable {x y z : Binary64}

theorem magnitude_pos_iff : 0 < x.magnitude ↔ 0 < x.significand := by
  unfold magnitude
  rw [mul_pos_iff_of_pos_right (by positivity)]
  exact Nat.cast_pos

theorem mul_ratio : ((x.significand * y.significand : Nat) : ℚ) / (1 : Nat) *
    2 ^ (x.exponent + y.exponent) = x.magnitude * y.magnitude := by
  unfold magnitude
  rw [zpow_add₀ two_ne_zero]
  push_cast
  ring

theorem div_ratio : (x.significand : ℚ) / y.significand * 2 ^ (x.exponent - y.exponent) =
    x.magnitude / y.magnitude := by
  unfold magnitude
  rw [zpow_sub₀ two_ne_zero]
  exact div_mul_div_comm ..

theorem le_of_mul?_eq_none (h : x.mul? y = none) : safe ≤ x.magnitude * y.magnitude := by
  rw [← mul_ratio]
  exact le_of_ofRatio?_eq_none Nat.one_pos h

theorem lt_of_mul? (h : x.mul? y = some z) : x.magnitude * y.magnitude < limit := by
  rw [← mul_ratio]
  exact (of_ofRatio? Nat.one_pos h).1

theorem le_of_div?_eq_none (hy : 0 < y.magnitude) (h : x.div? y = none) :
    safe ≤ x.magnitude / y.magnitude := by
  rw [← div_ratio]
  exact le_of_ofRatio?_eq_none (magnitude_pos_iff.mp hy) h

theorem of_div? (hy : 0 < y.magnitude) (h : x.div? y = some z) :
    |z.magnitude - x.magnitude / y.magnitude| ≤ max 1 (x.magnitude / y.magnitude) / 8 := by
  rw [← div_ratio]
  exact (of_ofRatio? (magnitude_pos_iff.mp hy) h).2

end

/-- A positive number that is not too large changes by no more than an eighth. -/
theorem ofNat?_near {n : Nat} (hn : 0 < n) (h : (n : ℚ) < safe) :
    ∃ x, ofNat? n = some x ∧ 7 / 8 * (n : ℚ) ≤ x.magnitude ∧ x.magnitude ≤ 9 / 8 * n := by
  have hratio : (n : ℚ) / (1 : Nat) * 2 ^ (0 : Int) = n := by simp
  have hone : (1 : ℚ) ≤ n := by exact_mod_cast hn
  cases hx : ofNat? n with
  | none =>
    have hle := le_of_ofRatio?_eq_none Nat.one_pos hx
    rw [hratio] at hle
    exact absurd h (not_lt.mpr hle)
  | some x =>
    obtain ⟨_, hnear⟩ := of_ofRatio? Nat.one_pos hx
    rw [hratio, max_eq_right hone, abs_le] at hnear
    exact ⟨x, rfl, by linarith, by linarith⟩

end LivePlayback.Decimal.Binary64
