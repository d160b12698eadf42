import LivePlayback.Proofs.Json.Grammar

/-!
# Numbers as they are written

A text is taken for a literal just if the grammar has it as a number.
-/

namespace LivePlayback.Json.Grammar
set_option autoImplicit false

open Literal

/-- What comes next is no digit, or there is nothing. -/
def Undigited (cs : List Char) : Prop := ∀ c ∈ cs.head?, c.isDigit = false

variable {cs ds rest whole fraction point power : List Char} {exponent : Option Int}

theorem span_digits_iff : cs.span Char.isDigit = (ds, rest) ↔
    cs = ds ++ rest ∧ (∀ d ∈ ds, d.isDigit = true) ∧ Undigited rest := by
  rw [List.span_eq_takeWhile_dropWhile, Prod.mk.injEq]
  constructor
  · rintro ⟨rfl, rfl⟩
    refine ⟨List.takeWhile_append_dropWhile.symm, fun d => List.mem_takeWhile_imp, ?_⟩
    intro c hc
    have hhead := List.head?_dropWhile_not Char.isDigit cs
    rw [Option.mem_def.mp hc] at hhead
    simpa using hhead
  · rintro ⟨rfl, hd, hr⟩
    rw [List.takeWhile_append_of_pos hd, List.dropWhile_append_of_pos hd]
    cases rest with
    | nil => simp
    | cons c rest => simp [hr c rfl]

/-! ## Parts of a number -/

theorem sign_eq (cs : List Char) :
    cs = (if (sign cs).1 then ['-'] else []) ++ (sign cs).2 := by
  unfold sign
  split <;> rfl

theorem sign_append (negative : Bool) (h : cs.head? ≠ some '-') :
    sign ((if negative then ['-'] else []) ++ cs) = (negative, cs) := by
  cases negative with
  | true => rfl
  | false =>
    simp only [Bool.false_eq_true, if_false, List.nil_append]
    unfold sign
    split
    · exact absurd rfl h
    · rfl

theorem of_whole? (h : whole? cs = some (whole, rest)) :
    cs = whole ++ rest ∧ Digits whole ∧ (whole.head? = some '0' → whole = ['0']) := by
  unfold whole? at h
  split at h
  · cases h
    exact ⟨rfl, ⟨List.cons_ne_nil _ _, List.forall_mem_singleton.mpr rfl⟩, fun _ => rfl⟩
  · rename_i hzero
    cases hs : cs.span Char.isDigit with
    | mk run rest' =>
      obtain ⟨hcs, hd, _⟩ := span_digits_iff.mp hs
      simp only [hs] at h
      split at h
      · cases h
      · rename_i hne
        cases h
        refine ⟨hcs, ⟨by simpa using hne, hd⟩, fun hhead => ?_⟩
        -- A zero in front was taken by itself.
        obtain ⟨ds, rfl⟩ := List.head?_eq_some_iff.mp hhead
        exact absurd hcs (hzero _)

theorem whole?_append (hw : Digits whole) (hzero : whole.head? = some '0' → whole = ['0'])
    (hr : Undigited rest) : whole? (whole ++ rest) = some (whole, rest) := by
  unfold whole?
  split
  · rename_i rest' heq
    have hhead : whole.head? = some '0' := by
      cases hcs : whole with
      | nil => exact absurd hcs hw.ne_nil
      | cons d ds =>
        rw [hcs] at heq
        cases heq
        rfl
    rw [hzero hhead] at heq ⊢
    cases heq
    rfl
  · have hne : whole.isEmpty = false := by simpa using hw.ne_nil
    simp only [span_digits_iff.mpr ⟨rfl, hw.digit, hr⟩, hne, Bool.false_eq_true, if_false]

theorem of_fraction? (h : fraction? cs = some (fraction, rest)) :
    ∃ point, Fraction fraction point ∧ cs = point ++ rest := by
  unfold fraction? at h
  split at h
  · rename_i cs
    cases hs : cs.span Char.isDigit with
    | mk run rest' =>
      obtain ⟨rfl, hd, _⟩ := span_digits_iff.mp hs
      simp only [hs] at h
      split at h
      · cases h
      · rename_i hne
        cases h
        exact ⟨'.' :: fraction, .some ⟨by simpa using hne, hd⟩, rfl⟩
  · cases h
    exact ⟨[], .none, rfl⟩

theorem fraction?_append (hf : Fraction fraction point) (hr : Undigited rest)
    (hpoint : rest.head? ≠ some '.') : fraction? (point ++ rest) = some (fraction, rest) := by
  cases hf with
  | none =>
    rw [List.nil_append]
    unfold fraction?
    split
    · exact absurd rfl hpoint
    · rfl
  | some h =>
    have hne : fraction.isEmpty = false := by simpa using h.ne_nil
    simp only [fraction?, List.cons_append, span_digits_iff.mpr ⟨rfl, h.digit, hr⟩, hne,
      Bool.false_eq_true, if_false]

theorem exponent_of_signedDigits {mark : Char} (hm : mark = 'e' ∨ mark = 'E')
    (h : Digits (signedDigits cs).2) :
    Exponent (some (if (signedDigits cs).1 then -(Nat.ofDigitChars 10 (signedDigits cs).2 0 : Int)
      else Nat.ofDigitChars 10 (signedDigits cs).2 0)) (mark :: cs) := by
  unfold signedDigits at h ⊢
  split at h
  · exact .minus hm h
  · exact .plus hm h
  · exact .unsigned hm h

theorem exponent?_mark {mark : Char} {negative : Bool} (hm : mark = 'e' ∨ mark = 'E')
    (h : Digits ds) (hs : signedDigits cs = (negative, ds)) : exponent? (mark :: cs) =
      some (some (if negative then -(Nat.ofDigitChars 10 ds 0 : Int)
        else Nat.ofDigitChars 10 ds 0)) := by
  have hall : ds.all Char.isDigit = true := List.all_eq_true.mpr h.digit
  have hne : ds.isEmpty = false := by simpa using h.ne_nil
  have hmark : (mark == 'e' || mark == 'E') = true := by simpa using hm
  simp only [exponent?, hs, hall, hne, hmark]
  rfl

theorem exponent?_eq_some_iff : exponent? cs = some exponent ↔ Exponent exponent cs := by
  constructor
  · intro h
    unfold exponent? at h
    split at h
    · cases h
      exact .none
    · rename_i mark rest
      simp only at h
      split at h
      · rename_i hcond
        simp only [Bool.and_eq_true, Bool.or_eq_true, beq_iff_eq, Bool.not_eq_true',
          List.isEmpty_eq_false_iff, List.all_eq_true] at hcond
        obtain ⟨⟨hm, hne⟩, hd⟩ := hcond
        cases h
        exact exponent_of_signedDigits hm ⟨hne, hd⟩
      · cases h
  · intro h
    cases h with
    | none => rfl
    | @plus mark ds hm h =>
      have hs : signedDigits ('+' :: ds) = (false, ds) := rfl
      exact exponent?_mark hm h hs
    | @minus mark ds hm h =>
      have hs : signedDigits ('-' :: ds) = (true, ds) := rfl
      exact exponent?_mark hm h hs
    | @unsigned mark ds hm h =>
      have hs : signedDigits ds = (false, ds) := by
        unfold signedDigits
        split
        · exact absurd (h.digit '-' List.mem_cons_self) (by decide)
        · exact absurd (h.digit '+' List.mem_cons_self) (by decide)
        · rfl
      exact exponent?_mark hm h hs

theorem Exponent.head? (h : Exponent exponent power) (c : Char) (hc : power.head? = some c) :
    c = 'e' ∨ c = 'E' := by
  cases h with
  | none => cases hc
  | unsigned hm | plus hm | minus hm =>
    cases hc
    exact hm

/-! ## Numbers -/

theorem ofChars?_eq_some_iff {l : Literal} : ofChars? cs = some l ↔ Numeral l cs := by
  constructor
  · intro h
    unfold ofChars? at h
    simp only [Option.bind_eq_bind, Option.bind_eq_some_iff, Option.some.injEq] at h
    obtain ⟨⟨whole, cs₁⟩, hw, ⟨fraction, cs₂⟩, hf, exponent, he, rfl⟩ := h
    obtain ⟨hcs, hdigits, hzero⟩ := of_whole? hw
    obtain ⟨point, hfraction, hcs₁⟩ := of_fraction? hf
    have hsign := sign_eq cs
    generalize (sign cs).1 = negative at hsign ⊢
    rw [hcs, show cs₁ = point ++ cs₂ from hcs₁] at hsign
    rw [hsign]
    exact .mk negative hdigits hzero hfraction (exponent?_eq_some_iff.mp he)
  · rintro ⟨negative, hw, hzero, hf, he⟩
    rename_i whole fraction point power exponent
    have hpower (c : Char) (hc : c ∈ power.head?) : c.isDigit = false ∧ c ≠ '.' := by
      rcases he.head? c hc with rfl | rfl <;> decide
    have hpoint : Undigited (point ++ power) := by
      cases hf with
      | none => exact fun c hc => (hpower c hc).1
      | some => exact fun c hc => by cases hc; rfl
    have hminus : (whole ++ (point ++ power)).head? ≠ some '-' := by
      cases hwhole : whole with
      | nil => exact absurd hwhole hw.ne_nil
      | cons d ds =>
        rintro ⟨⟩
        exact absurd (hw.digit '-' (hwhole ▸ List.mem_cons_self)) (by decide)
    unfold ofChars?
    simp only [sign_append negative hminus, whole?_append hw hzero hpoint,
      fraction?_append hf (fun c hc => (hpower c hc).1) fun h => (hpower '.' h).2 rfl,
      exponent?_eq_some_iff.mpr he, Option.bind_eq_bind, Option.bind_some]

end LivePlayback.Json.Grammar
