/-!
# YAML scalars

What a scalar means as an unsigned word or a truth value. Plain ones can be either, whatever their
tag says; a literal block has to be tagged as what it is, and all others are only text.
-/

namespace LivePlayback.Yaml
set_option autoImplicit false

inductive Style where
  | plain | literal | folded | singleQuoted | doubleQuoted
  deriving DecidableEq, Repr

structure Scalar where
  style : Style
  /-- In full, without a handle. -/
  tag : Option (List Char)
  chars : List Char
  deriving DecidableEq, Repr

namespace Scalar

def text (s : Scalar) : String := String.ofList s.chars

/-- In front of the names of common types. -/
def coreTags : List Char := "tag:yaml.org,2002:".toList

/-- Whether the text can be a value of a type. -/
def isValue (s : Scalar) (type : String) : Bool :=
  match s.style with
  | .plain => true
  | .literal => s.tag == some (coreTags ++ type.toList)
  | _ => false

def digitValue (c : Char) : Nat :=
  if c.isDigit then c.toNat - '0'.toNat
  else if 'a' ≤ c ∧ c ≤ 'z' then c.toNat - 'a'.toNat + 10
  else if 'A' ≤ c ∧ c ≤ 'Z' then c.toNat - 'A'.toNat + 10
  else 36

/-- An unsigned 64 bit word in some base, without a sign. -/
def wordInBase? (base : Nat) (digits : List Char) : Option Nat :=
  let n := digits.foldl (fun n c => n * base + digitValue c) 0
  if !digits.isEmpty && digits.all (fun c => digitValue c < base) && n < UInt64.size then some n
  else none

/-- A decimal number without superfluous zeros in front. -/
def decimal? : List Char → Option Nat
  | ['0'] => some 0
  | '0' :: _ => none
  | digits => wordInBase? 10 digits

/-- A plus sign may stand in front of the mark of a base. -/
def word? (s : Scalar) : Option Nat :=
  let unsigned := match s.chars with
    | '+' :: rest => rest
    | chars => chars
  if !s.isValue "int" then none
  else match unsigned with
    | '0' :: 'x' :: digits => wordInBase? 16 digits
    | '0' :: 'o' :: digits => wordInBase? 8 digits
    | '0' :: 'b' :: digits => wordInBase? 2 digits
    | digits => decimal? digits

def bool? (s : Scalar) : Option Bool :=
  if !s.isValue "bool" then none
  else if s.text ∈ ["true", "True", "TRUE"] then some true
  else if s.text ∈ ["false", "False", "FALSE"] then some false
  else none

end Scalar

end LivePlayback.Yaml
