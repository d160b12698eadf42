import LivePlayback.Decimal.Shortest

/-!
# JSON numbers

A literal without point and exponent is an integer when it fits 64 bits, signed if it is negative.
Every other one is a double: the digits that fit an unsigned 64 bit word are gathered, converted,
and scaled by one power of ten, so that the result is not always the nearest double.
-/

namespace LivePlayback.Json
set_option autoImplicit false

open Decimal

inductive Number where
  | int (n : Int)
  | float (x : Binary64)
  deriving DecidableEq, Repr

/-- Whether a signed 64 bit word holds the integer. -/
def fitsInt64 (n : Int) : Bool := -0x8000000000000000 ≤ n && n < 0x8000000000000000

/-- A number as written. -/
structure Literal where
  negative : Bool
  whole : List Nat
  fraction : List Nat
  /-- Whether a point or an exponent is written. -/
  pointed : Bool
  exponent : Int
  deriving DecidableEq, Repr

namespace Literal

def digits (cs : List Char) : List Nat := cs.map fun c => c.toNat - '0'.toNat

/-- A sign and what follows it. -/
def sign : List Char → Bool × List Char
  | '-' :: rest => (true, rest)
  | cs => (false, cs)

/-- Digits without a leading zero, unless zero is all there is. -/
def whole? : List Char → Option (List Char × List Char)
  | '0' :: rest => some (['0'], rest)
  | cs =>
    let (run, rest) := cs.span Char.isDigit
    if run.isEmpty then none else some (run, rest)

/-- The digits after a point; none without a point, a fault without digits. -/
def fraction? : List Char → Option (List Char × List Char)
  | '.' :: rest =>
    let (run, rest) := rest.span Char.isDigit
    if run.isEmpty then none else some (run, rest)
  | cs => some ([], cs)

def signedDigits : List Char → Bool × List Char
  | '-' :: rest => (true, rest)
  | '+' :: rest => (false, rest)
  | cs => (false, cs)

/-- An exponent that takes all that is left, or nothing at all. -/
def exponent? : List Char → Option (Option Int)
  | [] => some none
  | mark :: rest =>
    let (negative, run) := signedDigits rest
    if (mark == 'e' || mark == 'E') && !run.isEmpty && run.all Char.isDigit then
      let n : Int := Nat.ofDigitChars 10 run 0
      some (some (if negative then -n else n))
    else none

def ofChars? (cs : List Char) : Option Literal := do
  let (negative, cs) := sign cs
  let (whole, cs) ← whole? cs
  let (fraction, cs) ← fraction? cs
  let exponent ← exponent? cs
  some ⟨negative, digits whole, digits fraction, !fraction.isEmpty || exponent.isSome,
    exponent.getD 0⟩

def wordMax : Nat := UInt64.size - 1

/-- The number with the digits that still fit a word, and how many are left out. -/
def gather (n : Nat) : List Nat → Nat × Nat
  | [] => (n, 0)
  | d :: rest => if n * 10 + d ≤ wordMax then gather (n * 10 + d) rest else (n, rest.length + 1)

def powerOfTen? (n : Nat) : Option Binary64 := Binary64.ofNat? (Nat.pow 10 n)

/-- Quotients by at most two powers of ten; beyond those nothing is left of a word. -/
def scaleDown? (x : Binary64) (n : Nat) : Option Binary64 := do
  if n ≤ 308 then x.div? (← powerOfTen? n)
  else if n ≤ 616 then (← x.div? (← powerOfTen? 308)).div? (← powerOfTen? (n - 308))
  else some .zero

/-- A word times a power of ten; none when it is too large. -/
def scale? (n : Nat) (e : Int) : Option Binary64 := do
  let x ← Binary64.ofNat? n
  if x.isZero then some .zero
  else if 0 ≤ e then if e ≤ 308 then x.mul? (← powerOfTen? e.toNat) else none
  else scaleDown? x (-e).toNat

def float? (l : Literal) : Option Number := do
  let (n, unread) := gather 0 l.whole
  let (n, ignored) := gather n l.fraction
  let places : Int := l.fraction.length - ignored
  let x ← scale? n (unread - places + l.exponent)
  some (.float { x with negative := l.negative })

def value? (l : Literal) : Option Number :=
  let (n, unread) := gather 0 l.whole
  if l.pointed || 0 < unread then l.float?
  else if !l.negative then some (.int n)
  else if 0 < n ∧ fitsInt64 (-n) then some (.int (-n))
  else l.float?

end Literal

namespace Number

/-- The integer, if it is one that a signed 64 bit word holds. -/
def toInt64? : Number → Option Int
  | .int n => if fitsInt64 n then some n else none
  | .float _ => none

/-- The integer, if it is one that an unsigned 64 bit word holds. -/
def toWord? : Number → Option Nat
  | .int n => if 0 ≤ n ∧ n < UInt64.size then some n.toNat else none
  | .float _ => none

def intChars (n : Int) : List Char :=
  if n < 0 then '-' :: Nat.toDigits 10 n.natAbs else Nat.toDigits 10 n.natAbs

def chars : Number → List Char
  | .int n => intChars n
  | .float x => x.chars

def toFloat : Number → Float
  | .int n => ((Binary64.ofRatio? (n < 0) n.natAbs 1 0).map Binary64.toFloat).getD 0
  | .float x => x.toFloat

end Number

end LivePlayback.Json
