import LivePlayback.Json.Reader
import Mathlib.Data.List.TakeDrop
import Mathlib.Data.List.TakeWhile

/-!
# Numerals

Numbers are written in characters that a reader takes for a number, and integers that fit 64 bits
read back. Every integer that is read fits 64 bits.
-/

namespace LivePlayback.Json
set_option autoImplicit false

open Decimal

/-! ## The characters of numbers -/

section

variable {c : Char}

theorem Reader.isNumberChar_of_isDigit (h : c.isDigit = true) : isNumberChar c = true := by
  simp [isNumberChar, h]

theorem isDigit_of_mem_toDigits {n : Nat} (h : c ∈ Nat.toDigits 10 n) : c.isDigit = true :=
  Nat.isDigit_of_mem_toDigits (by decide) (by decide) h

theorem mem_of_mem_dropTrailingZeros {cs : List Char} (h : c ∈ Binary64.dropTrailingZeros cs) :
    c ∈ cs := by
  have hdrop := List.dropWhile_subset (· == '0') (List.mem_reverse.mp h)
  exact List.mem_reverse.mp hdrop

theorem isDigit_of_mem_shortest {x : Binary64} (h : c ∈ x.shortest.digits) : c.isDigit = true :=
  isDigit_of_mem_toDigits (mem_of_mem_dropTrailingZeros h)

open Reader

theorem isNumberChar_of_mem_replicate {n : Nat} (h : c ∈ List.replicate n '0') :
    isNumberChar c = true := by
  rw [List.eq_of_mem_replicate h]
  rfl

theorem isNumberChar_of_mem_positionalText {s : Scientific}
    (hs : ∀ c ∈ s.digits, c.isDigit = true) (h : c ∈ s.positionalText) :
    isNumberChar c = true := by
  have hdigit (h : c ∈ s.digits) : isNumberChar c = true := isNumberChar_of_isDigit (hs c h)
  unfold Scientific.positionalText at h
  split at h
  · simp only [List.mem_cons, List.mem_append] at h
    rcases h with rfl | rfl | h | h
    · rfl
    · rfl
    · exact isNumberChar_of_mem_replicate h
    · exact hdigit h
  · simp only [List.mem_append, List.mem_cons] at h
    rcases h with (h | h) | rfl | h
    · exact hdigit (List.mem_of_mem_take h)
    · exact isNumberChar_of_mem_replicate h
    · rfl
    · split at h
      · rw [List.mem_singleton.mp h]
        rfl
      · exact hdigit (List.mem_of_mem_drop h)

theorem isNumberChar_of_mem_scientificText {s : Scientific}
    (hs : ∀ c ∈ s.digits, c.isDigit = true) (h : c ∈ s.scientificText) :
    isNumberChar c = true := by
  have hexponent (h : c ∈ 'e' :: Scientific.exponentText s.exponent) : isNumberChar c = true := by
    rcases List.mem_cons.mp h with rfl | h
    · rfl
    · rcases List.mem_cons.mp h with rfl | h
      · split <;> rfl
      · exact isNumberChar_of_isDigit (isDigit_of_mem_toDigits h)
  rcases List.mem_append.mp h with h | h
  · have hpoint : c = '.' ∨ c ∈ s.digits := by
      split at h
      · cases h
      · simp_all
      · simp_all only [List.mem_cons]
        rcases h with h | h | h <;> simp [h]
    rcases hpoint with rfl | h
    · rfl
    · exact isNumberChar_of_isDigit (hs c h)
  · exact hexponent h

theorem isNumberChar_of_mem_chars {n : Number} (h : c ∈ n.chars) : isNumberChar c = true := by
  cases n with
  | int n =>
    have hdigits (h : c ∈ Nat.toDigits 10 n.natAbs) : isNumberChar c = true :=
      isNumberChar_of_isDigit (isDigit_of_mem_toDigits h)
    simp only [Number.chars, Number.intChars] at h
    split at h
    · rcases List.mem_cons.mp h with rfl | h
      · rfl
      · exact hdigits h
    · exact hdigits h
  | float x =>
    simp only [Number.chars, Binary64.chars] at h
    rcases List.mem_append.mp h with h | h
    · split at h
      · rw [List.mem_singleton.mp h]
        rfl
      · cases h
    · split at h
      · simp only [List.mem_cons, List.not_mem_nil, or_false] at h
        rcases h with rfl | rfl | rfl <;> rfl
      · unfold Scientific.text at h
        split at h
        · exact isNumberChar_of_mem_positionalText (fun c => isDigit_of_mem_shortest) h
        · exact isNumberChar_of_mem_scientificText (fun c => isDigit_of_mem_shortest) h

end

theorem Number.chars_ne_nil (n : Number) : n.chars ≠ [] := by
  cases n with
  | int n =>
    simp only [chars, intChars]
    split
    · exact List.cons_ne_nil _ _
    · exact Nat.toDigits_ne_nil
  | float x =>
    have htext (s : Scientific) : s.text ≠ [] := by
      simp only [Scientific.text, Scientific.positionalText, Scientific.scientificText]
      split
      · split <;> simp
      · simp
    refine List.append_ne_nil_of_right_ne_nil _ ?_
    split
    · exact List.cons_ne_nil _ _
    · exact htext x.shortest

/-! ## Integers read back -/

namespace Literal

theorem gather_digits {cs : List Char} {n : Nat} (h : Nat.ofDigitChars 10 cs n ≤ wordMax) :
    gather n (digits cs) = (Nat.ofDigitChars 10 cs n, 0) := by
  induction cs generalizing n with
  | nil => rfl
  | cons c cs ih =>
    rw [Nat.ofDigitChars_cons, Nat.mul_comm 10 n] at h ⊢
    have hnext : n * 10 + (c.toNat - '0'.toNat) ≤ wordMax := by
      -- The digits that are left make the number no smaller.
      rw [Nat.ofDigitChars_eq_ofDigitChars_zero] at h
      have hpos : 0 < 10 ^ cs.length := Nat.pow_pos (by decide)
      have hle := Nat.le_mul_of_pos_left (n * 10 + (c.toNat - '0'.toNat)) hpos
      omega
    rw [digits, List.map_cons, gather, if_pos hnext]
    exact ih h

/-- Only zero is written with a leading zero. -/
theorem head?_toDigits {n : Nat} (h : 0 < n) : (Nat.toDigits 10 n).head? ≠ some '0' := by
  induction n using Nat.strongRecOn with
  | _ n ih =>
    rw [Nat.toDigits_eq_if (by decide)]
    split
    · rename_i hn
      have hdigit : ∀ n : Fin 10, 0 < n.val → n.val.digitChar ≠ '0' := by decide
      simpa using hdigit ⟨n, hn⟩ h
    · have hrest := ih (n / 10) (by omega) (by omega)
      rw [List.head?_append]
      cases hd : (Nat.toDigits 10 (n / 10)).head? with
      | none => exact absurd (List.head?_eq_none_iff.mp hd) Nat.toDigits_ne_nil
      | some c => rwa [hd] at hrest

theorem whole?_toDigits (n : Nat) :
    whole? (Nat.toDigits 10 n) = some (Nat.toDigits 10 n, []) := by
  rcases Nat.eq_zero_or_pos n with rfl | hn
  · rfl
  · have hhead := head?_toDigits hn
    have hdigits : ∀ c ∈ Nat.toDigits 10 n, c.isDigit = true :=
      fun c => isDigit_of_mem_toDigits
    have hspan : (Nat.toDigits 10 n).span Char.isDigit = (Nat.toDigits 10 n, []) := by
      rw [List.span_eq_takeWhile_dropWhile, List.takeWhile_eq_self_iff.mpr hdigits,
        List.dropWhile_eq_nil_iff.mpr hdigits]
    unfold whole?
    split
    · rename_i heq
      simp [heq] at hhead
    · have hne : (Nat.toDigits 10 n).isEmpty = false := by simp
      simp only [hspan, hne]
      rfl

theorem sign_intChars (n : Int) :
    sign (Number.intChars n) = (decide (n < 0), Nat.toDigits 10 n.natAbs) := by
  unfold Number.intChars
  split
  · rename_i hn
    simp [sign, hn]
  · rename_i hn
    unfold sign
    split
    · rename_i rest heq
      have hdigit : ('-').isDigit = true :=
        isDigit_of_mem_toDigits (n := n.natAbs) (heq ▸ List.mem_cons_self)
      cases hdigit
    · simp [hn]

theorem ofChars?_intChars (n : Int) : ofChars? (Number.intChars n) =
    some ⟨decide (n < 0), digits (Nat.toDigits 10 n.natAbs), [], false, 0⟩ := by
  unfold ofChars?
  rw [sign_intChars]
  simp only [whole?_toDigits]
  rfl

theorem gather_le {n : Nat} {ds : List Nat} (h : n ≤ wordMax) : (gather n ds).1 ≤ wordMax := by
  induction ds generalizing n with
  | nil => exact h
  | cons d ds ih =>
    unfold gather
    split
    · rename_i hd
      exact ih hd
    · exact h

end Literal

/-- A number that a reader may come to: its integers fit 64 bits. -/
def Number.Readable : Number → Prop
  | .int n => -0x8000000000000000 ≤ n ∧ n < UInt64.size
  | .float _ => True

theorem fitsInt64_iff {n : Int} :
    fitsInt64 n = true ↔ -0x8000000000000000 ≤ n ∧ n < 0x8000000000000000 := by
  simp [fitsInt64]

theorem Literal.value?_intChars {n : Int} (h : (Number.int n).Readable) :
    value? ⟨decide (n < 0), digits (Nat.toDigits 10 n.natAbs), [], false, 0⟩ = some (.int n) := by
  obtain ⟨hlow, hhigh⟩ := h
  have hword : UInt64.size = 0x10000000000000000 := rfl
  have hvalue : Nat.ofDigitChars 10 (Nat.toDigits 10 n.natAbs) 0 = n.natAbs :=
    Nat.ofDigitChars_toDigits (by decide) (by decide)
  have hgather : gather 0 (digits (Nat.toDigits 10 n.natAbs)) = (n.natAbs, 0) := by
    have hfits : Nat.ofDigitChars 10 (Nat.toDigits 10 n.natAbs) 0 ≤ wordMax := by
      rw [hvalue, wordMax]
      omega
    rw [gather_digits hfits, hvalue]
  unfold value?
  simp only [hgather]
  by_cases hn : n < 0
  · have hneg : -(n.natAbs : Int) = n := by omega
    have hfits : fitsInt64 n = true := fitsInt64_iff.mpr ⟨hlow, by omega⟩
    have hpos : 0 < n.natAbs := by omega
    rw [if_neg (by decide), hneg, if_neg (by simp [hn]), if_pos ⟨hpos, hfits⟩]
  · have hpos : (n.natAbs : Int) = n := by omega
    rw [if_neg (by decide), hpos, if_pos (by simp [hn])]

/-- Integers read back. -/
theorem Reader.number?_intChars {n : Int} (h : (Number.int n).Readable) :
    number? (Number.intChars n).reverse = some (.number (.int n)) := by
  unfold number?
  rw [List.reverse_reverse, Literal.ofChars?_intChars]
  simp [Literal.value?_intChars h]

theorem Literal.readable_of_value? {l : Literal} {n : Number} (h : l.value? = some n) :
    n.Readable := by
  have hfloat {n : Number} (h : l.float? = some n) : n.Readable := by
    unfold float? at h
    simp only [Option.bind_eq_bind, Option.bind_eq_some_iff, Option.some.injEq] at h
    obtain ⟨x, _, rfl⟩ := h
    trivial
  have hgather : (gather 0 l.whole).1 ≤ wordMax := gather_le (Nat.zero_le _)
  have hword : UInt64.size = wordMax + 1 := rfl
  unfold value? at h
  simp only at h
  split at h
  · exact hfloat h
  · split at h
    · cases h
      exact ⟨by omega, by omega⟩
    · split at h
      · rename_i hfits
        cases h
        obtain ⟨_, hfits⟩ := hfits
        obtain ⟨hlow, _⟩ := fitsInt64_iff.mp hfits
        exact ⟨hlow, by omega⟩
      · exact hfloat h

theorem Reader.readable_of_number? {written : List Char} {v : Value}
    (h : number? written = some v) : ∃ n, v = .number n ∧ n.Readable := by
  unfold number? at h
  simp only [Option.bind_eq_bind, Option.bind_eq_some_iff, Option.some.injEq] at h
  obtain ⟨l, _, n, hn, rfl⟩ := h
  exact ⟨n, rfl, l.readable_of_value? hn⟩

end LivePlayback.Json
