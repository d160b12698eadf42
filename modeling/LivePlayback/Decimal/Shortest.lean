import LivePlayback.Decimal.Binary64

/-!
# Shortest decimal text

The fewest decimal digits that read back as the same double, nearest to it among those, and how
they are laid out: positionally while the first digit's place is from 10⁻⁵ to 10¹⁵, and with a
signed power of ten otherwise.
-/

namespace LivePlayback.Decimal
set_option autoImplicit false

/-- Digits `d₀d₁d₂…` that stand for `d₀.d₁d₂… * 10 ^ exponent`. -/
structure Scientific where
  digits : List Char
  exponent : Int
  deriving DecidableEq, Repr

/-- A positive double on a fine grid: `value`, and the ends of what rounds to it. -/
structure Neighbourhood where
  low : Nat
  value : Nat
  high : Nat
  /-- The grid's step is `2 ^ exponent`. -/
  exponent : Int
  /-- The ends round to the double too. -/
  closed : Bool

namespace Neighbourhood

def ofBinary64 (x : Binary64) : Neighbourhood :=
  let m := x.significand
  let narrow := m == Binary64.hiddenBit && Binary64.minExponent < x.exponent
  { low := if narrow then 4 * m - 1 else 4 * m - 2
    value := 4 * m
    high := 4 * m + 2
    exponent := x.exponent - 2
    closed := m % 2 == 0 }

/-- Factors that bring grid points and multiples of `10 ^ k` to one unit. -/
def factors (n : Neighbourhood) (k : Int) : Nat × Nat :=
  let (up, down) := Binary64.powerOfTwo n.exponent
  (up * Nat.pow 10 (-k).toNat, down * Nat.pow 10 k.toNat)

/-- The largest power of ten that is not above the value, within two of the guess. -/
def leadingPlace (n : Neighbourhood) : Int :=
  let guess : Int := ((n.value.log2 : Int) + n.exponent) * 30103 / 100000 - 1
  let reaches (k : Int) : Bool :=
    let (grid, ten) := n.factors k
    ten ≤ n.value * grid
  if reaches (guess + 3) then guess + 3
  else if reaches (guess + 2) then guess + 2
  else if reaches (guess + 1) then guess + 1
  else guess

/-- The multiple of `10 ^ k` nearest to the value among those that round to it. -/
def multiple? (n : Neighbourhood) (k : Int) : Option Nat :=
  let (grid, ten) := n.factors k
  let inside (c : Nat) : Bool :=
    if n.closed then n.low * grid ≤ c * ten && c * ten ≤ n.high * grid
    else n.low * grid < c * ten && c * ten < n.high * grid
  let below := n.value * grid / ten
  let above := below + 1
  match inside below, inside above with
  | true, true =>
    let up := 2 * (n.value * grid - below * ten)
    if up < ten || (up == ten && below % 2 == 0) then some below else some above
  | true, false => some below
  | false, true => some above
  | false, false => none

end Neighbourhood

namespace Binary64

def dropTrailingZeros (digits : List Char) : List Char :=
  (digits.reverse.dropWhile (· == '0')).reverse

/-- The shortest digits of a number that is not zero. -/
def shortest (x : Binary64) : Scientific :=
  let n := Neighbourhood.ofBinary64 x
  let place := n.leadingPlace
  let found := (List.range 17).findSome? fun (i : Nat) =>
    (n.multiple? (place - i)).map fun c => (c, place - (i : Int))
  let (c, k) := found.getD (0, 0)
  let digits := Nat.toDigits 10 c
  ⟨dropTrailingZeros digits, k + (digits.length - 1 : Nat)⟩

end Binary64

namespace Scientific

/-- Powers of ten written positionally. -/
def positional (exponent : Int) : Bool := -5 ≤ exponent && exponent ≤ 15

def positionalText (s : Scientific) : List Char :=
  if s.exponent < 0 then
    '0' :: '.' :: (List.replicate (-s.exponent - 1).toNat '0' ++ s.digits)
  else
    let whole := s.exponent.toNat + 1
    let fraction := s.digits.drop whole
    s.digits.take whole ++ List.replicate (whole - s.digits.length) '0' ++
      '.' :: (if fraction.isEmpty then ['0'] else fraction)

def exponentText (e : Int) : List Char :=
  (if e < 0 then '-' else '+') :: Nat.toDigits 10 e.natAbs

def scientificText (s : Scientific) : List Char :=
  let mantissa :=
    match s.digits with
    | [] => []
    | [d] => [d]
    | d :: rest => d :: '.' :: rest
  mantissa ++ 'e' :: exponentText s.exponent

def text (s : Scientific) : List Char :=
  if positional s.exponent then s.positionalText else s.scientificText

end Scientific

namespace Binary64

def chars (x : Binary64) : List Char :=
  let sign := if x.negative then ['-'] else []
  sign ++ if x.isZero then ['0', '.', '0'] else x.shortest.text

def text (x : Binary64) : String := String.ofList x.chars

end Binary64

end LivePlayback.Decimal
