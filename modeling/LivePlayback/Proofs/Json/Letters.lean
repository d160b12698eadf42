import LivePlayback.Proofs.Json.Grammar
import LivePlayback.Proofs.Json.Reading

/-!
# Strings as they are written

A reader inside a string takes one letter after the other, and it takes just the letters of the
grammar. Within an escape the text that it has taken so far is the beginning of one.
-/

namespace LivePlayback.Json
set_option autoImplicit false

open Grammar

namespace Reader

variable {c d : Char} {n value : Nat} {high : Option Nat} {stack : List Open} {isKey : Bool}
  {cs rest pre ds written written' : List Char} {escape escape' : Escape}

/-! ## Single characters -/

theorem isBlank_iff : isBlank c = true ↔ c = ' ' ∨ c = '\t' ∨ c = '\n' ∨ c = '\r' := by
  simp [isBlank, or_assoc]

theorem hexValue?_of_hexDigit (h : HexDigit c n) : hexValue? c = some n := by
  have hall : ∀ n : Fin 16, hexValue? (Nat.digitChar n) = some n.val ∧
      hexValue? (Nat.digitChar n).toUpper = some n.val := by decide
  obtain ⟨hn, rfl | rfl⟩ := h
  · exact (hall ⟨n, hn⟩).1
  · exact (hall ⟨n, hn⟩).2

theorem toNat_lt_of_hexValue? (h : hexValue? c = some n) : c.toNat < 128 := by
  unfold hexValue? at h
  split at h
  · rename_i hd
    simp only [Char.isDigit, Bool.and_eq_true, decide_eq_true_eq] at hd
    exact Nat.lt_of_le_of_lt hd.2 (by decide)
  · split at h
    · rename_i hc
      exact Nat.lt_of_le_of_lt hc.2 (by decide)
    · split at h
      · rename_i hc
        exact Nat.lt_of_le_of_lt hc.2 (by decide)
      · cases h

theorem hexDigit_of_hexValue? (h : hexValue? c = some n) : HexDigit c n := by
  have hall : ∀ k : Fin 128, ∀ n ∈ hexValue? (Char.ofNat k), n < 16 ∧
      (Char.ofNat k = Nat.digitChar n ∨ Char.ofNat k = (Nat.digitChar n).toUpper) := by decide
  have hc := hall ⟨c.toNat, toNat_lt_of_hexValue? h⟩
  rw [Char.ofNat_toNat] at hc
  exact hc n h

theorem unescaped?_eq_some_iff : unescaped? d = some c ↔ (d, c) ∈ shorthands := by
  unfold unescaped?
  split <;> simp_all [shorthands, eq_comm]

theorem isHigh_iff : isHigh n = true ↔ 0xD800 ≤ n ∧ n < 0xDC00 := by
  simp [isHigh]
  omega

theorem isLow_iff : isLow n = true ↔ 0xDC00 ≤ n ∧ n < 0xE000 := by
  simp [isLow]
  omega

theorem isHigh_toNat (c : Char) : isHigh c.toNat = false := by
  have hvalid : c.toNat < 0xD800 ∨ 0xDFFF < c.toNat ∧ c.toNat < 0x110000 := c.valid
  rw [Bool.eq_false_iff, ne_eq, isHigh_iff]
  omega

theorem isLow_toNat (c : Char) : isLow c.toNat = false := by
  have hvalid : c.toNat < 0xD800 ∨ 0xDFFF < c.toNat ∧ c.toNat < 0x110000 := c.valid
  rw [Bool.eq_false_iff, ne_eq, isLow_iff]
  omega

/-! ## Letters are read -/

theorem unit?_toNat (c : Char) : unit? written none c.toNat = some (c :: written, .none) := by
  simp [unit?, isHigh_toNat, isLow_toNat, Char.ofNat_toNat]

theorem feedAll_hex (h : Hex n cs rest) :
    feedAll ⟨stack, .string isKey written (.hex 0 0 high)⟩ cs =
      (unit? written high n).bind fun u => feedAll ⟨stack, .string isKey u.1 u.2⟩ rest := by
  cases h with
  | mk h₁ h₂ h₃ h₄ =>
    simp only [feedAll_cons, feed, inString?, hexValue?_of_hexDigit h₁, hexValue?_of_hexDigit h₂,
      hexValue?_of_hexDigit h₃, hexValue?_of_hexDigit h₄]
    cases hu : unit? written high _ with
    | none => simp [hu]
    | some u => simp [hu]

theorem feedAll_letter (h : Letter c cs rest) :
    feedAll ⟨stack, .string isKey written .none⟩ cs =
      feedAll ⟨stack, .string isKey (c :: written) .none⟩ rest := by
  have hescape (cs : List Char) :
      feedAll ⟨stack, .string isKey written .none⟩ ('\\' :: 'u' :: cs) =
        feedAll ⟨stack, .string isKey written (.hex 0 0 none)⟩ cs := rfl
  cases h with
  | plain hquote hbackslash hcontrol =>
    simp [feedAll_cons, feed, inString?, hquote, hbackslash, Nat.not_lt.mpr hcontrol]
  | @short mark _ h =>
    have hmark : mark ≠ 'u' := by
      rintro rfl
      revert h
      simp [shorthands]
    simp [feedAll_cons, feed, inString?, hmark, unescaped?_eq_some_iff.mpr h]
  | unit h => rw [hescape, feedAll_hex h, unit?_toNat, Option.bind_some]
  | @pair high low _ cs' _ h h' hhigh hlow hc =>
    have hwait : unit? written none high = some (written, .high high) := by
      rw [unit?, if_pos (isHigh_iff.mpr hhigh)]
    have hnext : feedAll ⟨stack, .string isKey written (.high high)⟩ ('\\' :: 'u' :: cs') =
        feedAll ⟨stack, .string isKey written (.hex 0 0 (some high))⟩ cs' := rfl
    have hpair : unit? written (some high) low = some (c :: written, .none) := by
      rw [unit?, if_pos (isLow_iff.mpr hlow), paired, ← hc, Char.ofNat_toNat]
    rw [hescape, feedAll_hex h, hwait, Option.bind_some, hnext, feedAll_hex h', hpair,
      Option.bind_some]

theorem feedAll_letters {s : List Char} (h : Letters s cs rest) :
    feedAll ⟨stack, .string isKey written .none⟩ cs =
      (closeString ⟨stack, .string isKey (s.reverse ++ written) .none⟩ isKey
        (s.reverse ++ written)).bind fun r => r.feedAll rest := by
  induction h generalizing written with
  | nil => rfl
  | cons h _ ih =>
    rw [feedAll_letter h, ih, List.reverse_cons, List.append_assoc]
    rfl

/-! ## What is read is letters -/

/-- Some hexadecimal digits, and their value. -/
inductive HexRun : Nat → Nat → List Char → Prop where
  | nil : HexRun 0 0 []
  | snoc {count value n : Nat} {c : Char} {ds : List Char} (h : HexRun count value ds)
      (hc : HexDigit c n) : HexRun (count + 1) (value * 16 + n) (ds ++ [c])

theorem HexRun.lt {count : Nat} (h : HexRun count value ds) : value < 16 ^ count := by
  induction h with
  | nil => decide
  | snoc _ hc ih =>
    have hn := hc.1
    rw [Nat.pow_succ]
    omega

theorem HexRun.hex (h : HexRun 4 value ds) (rest : List Char) : Hex value (ds ++ rest) rest := by
  rcases h with _ | ⟨_ | ⟨_ | ⟨_ | ⟨_ | ⟨⟩, h₁⟩, h₂⟩, h₃⟩, h₄⟩
  rw [Nat.zero_mul, Nat.zero_add]
  exact .mk h₁ h₂ h₃ h₄ rest

/-- The text of an escape in front of its digits, or of its second digits. -/
inductive Lead : Option Nat → List Char → Prop where
  | first : Lead none ['\\', 'u']
  | second {unit : Nat} {ds : List Char} (h : HexRun 4 unit ds) (hu : isHigh unit = true) :
      Lead (some unit) ('\\' :: 'u' :: (ds ++ ['\\', 'u']))

/-- The text that a reader has taken since the last whole letter. -/
inductive Taken : Escape → List Char → Prop where
  | none : Taken .none []
  | started : Taken .started ['\\']
  | hex {high : Option Nat} {count value : Nat} {lead ds : List Char} (hl : Lead high lead)
      (h : HexRun count value ds) (hc : count < 4) : Taken (.hex count value high) (lead ++ ds)
  | high {unit : Nat} {ds : List Char} (h : HexRun 4 unit ds) (hu : isHigh unit = true) :
      Taken (.high unit) ('\\' :: 'u' :: ds)
  | highStarted {unit : Nat} {ds : List Char} (h : HexRun 4 unit ds) (hu : isHigh unit = true) :
      Taken (.highStarted unit) ('\\' :: 'u' :: (ds ++ ['\\']))

theorem toNat_ofNat (h : n < 0xD800 ∨ 0xDFFF < n ∧ n < 0x110000) : (Char.ofNat n).toNat = n := by
  rw [Char.ofNat, dif_pos h]
  rfl

theorem toNat_ofNat_of_unit (h : HexRun 4 value ds) (hhigh : isHigh value = false)
    (hlow : isLow value = false) : (Char.ofNat value).toNat = value := by
  have hlt := h.lt
  rw [Bool.eq_false_iff, ne_eq, isHigh_iff] at hhigh
  rw [Bool.eq_false_iff, ne_eq, isLow_iff] at hlow
  exact toNat_ofNat (by omega)

/-- One more digit of an escape. -/
theorem taken_of_unit? {lead : List Char} (hl : Lead high lead) (h : HexRun 4 value ds)
    (hu : unit? written high value = some (written', escape')) :
    (escape' = .none ∧ ∃ d, ∀ rest, Letter d (lead ++ (ds ++ rest)) rest) ∨
      Taken escape' (lead ++ ds) := by
  unfold unit? at hu
  cases hl with
  | first =>
    simp only at hu
    split at hu
    · rename_i hhigh
      cases hu
      exact .inr (.high h hhigh)
    · rename_i hhigh
      split at hu
      · cases hu
      · rename_i hlow
        cases hu
        refine .inl ⟨rfl, Char.ofNat value, fun rest => .unit ?_⟩
        rw [toNat_ofNat_of_unit h (eq_false_of_ne_true hhigh) (eq_false_of_ne_true hlow)]
        exact h.hex rest
  | @second unit ds' h' hhigh =>
    simp only at hu
    split at hu
    · rename_i hlow
      cases hu
      rw [isHigh_iff] at hhigh
      rw [isLow_iff] at hlow
      refine .inl ⟨rfl, paired unit value, fun rest =>
        .pair (?_ : Hex unit _ _) (h.hex rest) hhigh hlow ?_⟩
      · simpa using h'.hex ('\\' :: 'u' :: (ds ++ rest))
      · exact toNat_ofNat (by omega)
    · cases hu

/-- One more character in a string: a letter is complete, or its text goes on. -/
theorem taken_of_inString? (ht : Taken escape pre) (hquote : escape = .none → c ≠ '"')
    (h : inString? written escape c = some (written', escape')) :
    (escape' = .none ∧ ∃ d, ∀ rest, Letter d (pre ++ c :: rest) rest) ∨
      Taken escape' (pre ++ [c]) := by
  unfold inString? at h
  cases ht with
  | none =>
    simp only at h
    split at h
    · rename_i hc
      subst hc
      cases h
      exact .inr .started
    · rename_i hbackslash
      split at h
      · cases h
      · rename_i hcontrol
        cases h
        exact .inl ⟨rfl, c, fun rest =>
          .plain (hquote rfl) hbackslash (Nat.le_of_not_lt hcontrol)⟩
  | started =>
    simp only at h
    split at h
    · rename_i hc
      subst hc
      cases h
      have htaken := Taken.hex .first .nil (by decide)
      exact .inr htaken
    · obtain ⟨d, hd, heq⟩ := Option.map_eq_some_iff.mp h
      cases heq
      exact .inl ⟨rfl, d, fun rest => .short (unescaped?_eq_some_iff.mp hd)⟩
  | hex hl hrun hcount =>
    simp only [Option.bind_eq_bind, Option.bind_eq_some_iff] at h
    obtain ⟨n, hn, h⟩ := h
    have hnext := hrun.snoc (hexDigit_of_hexValue? hn)
    split at h
    · rename_i hthree
      subst hthree
      have hunit := taken_of_unit? hl hnext h
      simpa using hunit
    · rename_i hmore
      cases h
      right
      rw [List.append_assoc]
      exact .hex hl hnext (by omega)
  | high hrun hhigh =>
    simp only at h
    split at h
    · rename_i hc
      subst hc
      cases h
      exact .inr (.highStarted hrun hhigh)
    · cases h
  | highStarted hrun hhigh =>
    simp only at h
    split at h
    · rename_i hc
      subst hc
      cases h
      have hlead := Lead.second hrun hhigh
      have htaken := Taken.hex hlead .nil (by decide)
      exact .inr (by simpa using htaken)
    · cases h

end Reader

end LivePlayback.Json
