import LivePlayback.Proofs.Decimal.Rounding
import LivePlayback.Session.Updates

/-!
# How long a rate makes readers wait

An interval is the whole number of nanoseconds nearest to the inverse of its frequency: the double
between the two is too close to the inverse to make a difference. It is zero above two gigahertz,
and only there can a reader not start.
-/

namespace LivePlayback
set_option autoImplicit false

open Decimal Binary64

-- Stated for any number, so that no particular one is computed.
theorem Duration.nanos_eq_of_mk {n : Nat} {d : Duration} (h : ⟨n⟩ = d) : d.nanos = n := by
  rw [← h]

namespace UpdateRate

theorem nanosOf_nearest (x : Binary64) :
    |(nanosOf x : ℚ) - x.magnitude * nanosPerSecond| ≤ 1 / 2 := by
  have hscaled : ((x.significand * nanosPerSecond * (powerOfTwo x.exponent).1 : Nat) : ℚ) /
      (powerOfTwo x.exponent).2 = x.magnitude * nanosPerSecond := by
    rw [magnitude, ← powerOfTwo_div]
    push_cast
    ring
  rw [← hscaled]
  exact roundDiv_nearest _ (powerOfTwo_pos x.exponent).2

section

variable {hertz : Nat}

theorem inverse_near (hpos : 0 < hertz) (hsize : hertz < UInt32.size) :
    |(inverse hertz).magnitude - 1 / hertz| ≤ 1 / hertz / 2 ^ 52 := by
  have hpos' : (0 : ℚ) < hertz := by exact_mod_cast hpos
  have hratio : ((1 : Nat) : ℚ) / hertz * 2 ^ (0 : Int) = 1 / hertz := by simp
  have hlow : (2 : ℚ) ^ 52 * 2 ^ minExponent ≤ ((1 : Nat) : ℚ) / hertz * 2 ^ (0 : Int) := by
    rw [hratio, le_div_iff₀ hpos']
    calc (2 : ℚ) ^ 52 * 2 ^ minExponent * hertz
      _ ≤ 2 ^ 52 * 2 ^ minExponent * 2 ^ 32 := by
        gcongr
        exact_mod_cast hsize.le
      _ = 2 ^ (32 + (52 + minExponent)) := by
        rw [mul_comm, two_pow_mul_zpow, two_pow_mul_zpow]
        rfl
      _ ≤ 1 := zpow_le_one_of_nonpos₀ one_le_two (by decide)
  have hhigh : ((1 : Nat) : ℚ) / hertz * 2 ^ (0 : Int) < safe := by
    rw [hratio]
    calc 1 / (hertz : ℚ)
      _ ≤ 1 := div_le_one_of_le₀ (by exact_mod_cast hpos) hpos'.le
      _ < safe := one_lt_safe
  obtain ⟨r, hr, hnear⟩ := exists_ofRatio? Nat.one_pos hpos hlow hhigh
  have hinverse : inverse hertz = r := by
    rw [inverse, hr]
    rfl
  rwa [hinverse, ← hratio]

/-- The interval of a frequency, in nanoseconds. -/
theorem nanosOf_inverse_nearest (hpos : 0 < hertz) (hsize : hertz < UInt32.size) :
    |(nanosOf (inverse hertz) : ℚ) - nanosPerSecond / hertz| ≤ 1 / 2 := by
  have hpos' : (0 : ℚ) < hertz := by exact_mod_cast hpos
  refine nearest_of_close hpos (nanosOf_nearest (inverse hertz)) ?_
  have hfactor : (inverse hertz).magnitude * nanosPerSecond - (nanosPerSecond : ℚ) / hertz =
      ((inverse hertz).magnitude - 1 / hertz) * nanosPerSecond := by ring
  rw [hfactor, abs_mul, Nat.abs_cast]
  calc |(inverse hertz).magnitude - 1 / hertz| * nanosPerSecond
    _ ≤ 1 / hertz / 2 ^ 52 * nanosPerSecond := by
      gcongr
      exact inverse_near hpos hsize
    _ = 1 / hertz * (nanosPerSecond / 2 ^ 52) := by ring
    _ < 1 / hertz * (1 / 2) := by
      apply mul_lt_mul_of_pos_left _ (by positivity)
      norm_num [nanosPerSecond]
    _ = 1 / (2 * hertz) := by ring

theorem nanosOf_inverse_pos_iff (hpos : 0 < hertz) (hsize : hertz < UInt32.size) :
    0 < nanosOf (inverse hertz) ↔ hertz ≤ 2 * nanosPerSecond := by
  obtain ⟨hlow, hhigh⟩ := abs_le.mp (nanosOf_inverse_nearest hpos hsize)
  have hpos' : (0 : ℚ) < hertz := by exact_mod_cast hpos
  constructor
  · intro hn
    have hone : (1 : ℚ) ≤ nanosOf (inverse hertz) := by exact_mod_cast hn
    have hhalf : 1 / 2 ≤ (nanosPerSecond : ℚ) / hertz := by linarith
    rw [le_div_iff₀ hpos'] at hhalf
    have hle : (hertz : ℚ) ≤ 2 * nanosPerSecond := by linarith
    exact_mod_cast hle
  · intro hle
    rcases hle.lt_or_eq with hlt | rfl
    · apply Nat.pos_of_ne_zero
      intro hzero
      rw [hzero, Nat.cast_zero] at hlow
      have hhalf : (nanosPerSecond : ℚ) / hertz ≤ 1 / 2 := by linarith
      rw [div_le_iff₀ hpos'] at hhalf
      have hlt : (hertz : ℚ) < 2 * nanosPerSecond := by exact_mod_cast hlt
      linarith
    · -- Half a nanosecond: the double is above it.
      decide +kernel

theorem nanosOf_inverse_antitone {faster : Nat} (hpos : 0 < hertz) (hle : hertz ≤ faster)
    (hsize : faster < UInt32.size) : nanosOf (inverse faster) ≤ nanosOf (inverse hertz) := by
  rcases hle.eq_or_lt with rfl | hlt
  · exact Nat.le_refl _
  · obtain ⟨hlow, _⟩ := abs_le.mp (nanosOf_inverse_nearest hpos (hle.trans_lt hsize))
    obtain ⟨_, hhigh⟩ := abs_le.mp (nanosOf_inverse_nearest (hpos.trans_le hle) hsize)
    have hquotients : (nanosPerSecond : ℚ) / faster < nanosPerSecond / hertz := by
      have hpos' : (0 : ℚ) < hertz := by exact_mod_cast hpos
      have hseconds : (0 : ℚ) < nanosPerSecond := by norm_num [nanosPerSecond]
      gcongr
    have hsucc : (nanosOf (inverse faster) : ℚ) < nanosOf (inverse hertz) + 1 := by linarith
    exact Nat.lt_succ_iff.mp (by exact_mod_cast hsucc)

end

/-- Updates in a second, or 0 without a limit. -/
def hertz : UpdateRate → Nat
  | .native => 0
  | .atMost hertz => hertz.toNat

variable {rate : UpdateRate} {d : Duration}

theorem hertz_lt (rate : UpdateRate) : rate.hertz < UInt32.size := by
  cases rate with
  | native => decide
  | atMost hertz => exact hertz.toNat_lt

theorem interval_eq (rate : UpdateRate) : rate.interval =
    if rate.hertz = 0 then none else some ⟨nanosOf (inverse rate.hertz)⟩ := by
  cases rate with
  | native => rfl
  | atMost hertz =>
    have hzero : hertz = 0 ↔ hertz.toNat = 0 := by
      rw [← UInt32.toNat_inj]
      rfl
    exact if_congr hzero rfl rfl

theorem interval_eq_none_iff : rate.interval = none ↔ rate.hertz = 0 := by
  rw [interval_eq]
  split <;> simp [*]

theorem of_interval (h : rate.interval = some d) :
    0 < rate.hertz ∧ d.nanos = nanosOf (inverse rate.hertz) := by
  rw [interval_eq] at h
  split at h
  · cases h
  · rename_i hne
    exact ⟨Nat.pos_of_ne_zero hne, Duration.nanos_eq_of_mk (Option.some.inj h)⟩

/-- What a rate comes to. -/
structure Paces (rate : UpdateRate) : Prop where
  unlimited : rate.interval = none ↔ rate.hertz = 0
  nearest : ∀ d, rate.interval = some d → |(d.nanos : ℚ) - nanosPerSecond / rate.hertz| ≤ 1 / 2
  antitone : ∀ d, rate.interval = some d → ∀ (faster : UpdateRate) (d' : Duration),
    faster.interval = some d' → rate.hertz ≤ faster.hertz → d'.nanos ≤ d.nanos
  /-- Up to two gigahertz there is time between two updates, -/
  positive : ∀ d, rate.interval = some d → (0 < d.nanos ↔ rate.hertz ≤ 2 * nanosPerSecond)
  /-- and so a reader can start. -/
  starts : ∀ (α : Type) (now : Nat),
    (∃ u : Updates α, Updates.ofRate? rate now = some u) ↔ rate.hertz ≤ 2 * nanosPerSecond

theorem exists_ofRate?_iff {α : Type} {now : Nat} :
    (∃ u : Updates α, Updates.ofRate? rate now = some u) ↔
      ∀ d, rate.interval = some d → 0 < d.nanos := by
  cases hd : rate.interval with
  | none => simp [Updates.ofRate?, hd]
  | some d =>
    by_cases hzero : d.nanos = 0
    · simp [Updates.ofRate?, Latest.start?, Pacer.start?, hd, hzero]
    · simp [Updates.ofRate?, Latest.start?, Pacer.start?, hd, hzero, Nat.pos_of_ne_zero]

theorem positive_iff (h : rate.interval = some d) :
    0 < d.nanos ↔ rate.hertz ≤ 2 * nanosPerSecond := by
  obtain ⟨hpos, hnanos⟩ := of_interval h
  rw [hnanos]
  exact nanosOf_inverse_pos_iff hpos rate.hertz_lt

theorem rates_pace (rate : UpdateRate) : rate.Paces where
  unlimited := interval_eq_none_iff
  nearest := by
    intro d hd
    obtain ⟨hpos, hnanos⟩ := of_interval hd
    rw [hnanos]
    exact nanosOf_inverse_nearest hpos rate.hertz_lt
  antitone := by
    intro d hd faster d' hd' hle
    obtain ⟨hpos, hnanos⟩ := of_interval hd
    obtain ⟨_, hnanos'⟩ := of_interval hd'
    rw [hnanos, hnanos']
    exact nanosOf_inverse_antitone hpos hle faster.hertz_lt
  positive := by
    intro d hd
    exact positive_iff hd
  starts := by
    intro α now
    rw [exists_ofRate?_iff]
    cases hd : rate.interval with
    | none => simp [interval_eq_none_iff.mp hd]
    | some d => simp [positive_iff hd]

/-- The highest rate leaves no time between two updates. -/
example : (atMost 4294967295).interval = some ⟨0⟩ := by decide +kernel

end UpdateRate
end LivePlayback
