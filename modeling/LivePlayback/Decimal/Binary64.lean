/-!
# Finite binary floating point numbers

A finite double is a signed significand times a power of two, held exactly. Quotients are rounded
to the nearest one, ties to the even significand. Infinities and NaN are not represented; an
operation that would reach them has no result.
-/

namespace LivePlayback.Decimal
set_option autoImplicit false

/-- The number `significand * 2 ^ exponent`, with its sign. -/
structure Binary64 where
  negative : Bool
  significand : Nat
  exponent : Int
  deriving DecidableEq, Repr

namespace Binary64

def minExponent : Int := -1074

def maxExponent : Int := 971

/-- The 53rd bit, which every significand has but those at the least exponent. -/
def hiddenBit : Nat := 0x10000000000000

def zero : Binary64 := ⟨false, 0, minExponent⟩

def isZero (x : Binary64) : Bool := x.significand == 0

/-- Numerator and denominator of `2 ^ e`. -/
def powerOfTwo (e : Int) : Nat × Nat := (Nat.pow 2 e.toNat, Nat.pow 2 (-e).toNat)

/-- Nearest integer to a quotient, ties to even. -/
def roundDiv (num den : Nat) : Nat :=
  let q := num / den
  let r := num % den
  if 2 * r < den then q
  else if den < 2 * r then q + 1
  else if q % 2 = 0 then q else q + 1

/-- The exponent at which a positive quotient has a significand of 53 bits, or the least one. -/
def targetExponent (num den : Nat) : Int :=
  let guess : Int := (num.log2 : Int) - den.log2 - 52
  let (up, down) := powerOfTwo guess
  let e := if num * down / (den * up) < hiddenBit then guess - 1 else guess
  max e minExponent

/-- The double nearest to `num / den * 2 ^ e`; none when it is too large. -/
def ofRatio? (negative : Bool) (num den : Nat) (e : Int) : Option Binary64 :=
  if num = 0 then some ⟨negative, 0, minExponent⟩
  else
    let (up, down) := powerOfTwo e
    let num := num * up
    let den := den * down
    let target := targetExponent num den
    let (up, down) := powerOfTwo target
    let m := roundDiv (num * down) (den * up)
    let (m, target) := if m = 2 * hiddenBit then (hiddenBit, target + 1) else (m, target)
    if maxExponent < target then none else some ⟨negative, m, target⟩

def ofNat? (n : Nat) : Option Binary64 := ofRatio? false n 1 0

def mul? (x y : Binary64) : Option Binary64 :=
  ofRatio? (x.negative != y.negative) (x.significand * y.significand) 1 (x.exponent + y.exponent)

/-- The quotient by a number that is not zero. -/
def div? (x y : Binary64) : Option Binary64 :=
  ofRatio? (x.negative != y.negative) x.significand y.significand (x.exponent - y.exponent)

def toBits (x : Binary64) : UInt64 :=
  let sign : UInt64 := if x.negative then 0x8000000000000000 else 0
  if x.significand < hiddenBit then sign ||| x.significand.toUInt64
  else
    sign ||| ((x.exponent - minExponent + 1).toNat.toUInt64 <<< 52)
      ||| (x.significand - hiddenBit).toUInt64

def toFloat (x : Binary64) : Float := Float.ofBits x.toBits

/-- A finite float, exactly. -/
def ofFloat? (f : Float) : Option Binary64 :=
  let bits := f.toBits
  let negative := bits >>> 63 == 1
  let biased := (bits >>> 52 &&& 0x7FF).toNat
  let fraction := (bits &&& 0xFFFFFFFFFFFFF).toNat
  if biased = 0x7FF then none
  else if biased = 0 then some ⟨negative, fraction, minExponent⟩
  else some ⟨negative, fraction + hiddenBit, minExponent + (biased - 1 : Nat)⟩

end Binary64

end LivePlayback.Decimal
