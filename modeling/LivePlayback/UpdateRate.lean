import LivePlayback.Decimal.Binary64
import LivePlayback.State
import LivePlayback.Time

/-!
# Update rates

How often a reader of the latest metadata wants to hear of it. The interval of a frequency is the
double nearest to its inverse, rounded to whole nanoseconds with ties to even; above two gigahertz
nothing is left of it.
-/

namespace LivePlayback
set_option autoImplicit false

open Decimal Json

inductive UpdateRate where
  /-- Every update. -/
  | native
  | atMost (hertz : UInt32)
  deriving DecidableEq, Repr

namespace UpdateRate

/-- A number of seconds in nanoseconds. -/
def nanosOf (x : Binary64) : Nat :=
  let (up, down) := Binary64.powerOfTwo x.exponent
  Binary64.roundDiv (x.significand * nanosPerSecond * up) down

def inverse (hertz : Nat) : Binary64 := (Binary64.ofRatio? false 1 hertz 0).getD .zero

/-- The least distance of two updates; none without a limit. -/
def interval : UpdateRate → Option Duration
  | .native => none
  | .atMost hertz => if hertz = 0 then none else some ⟨nanosOf (inverse hertz.toNat)⟩

def ofValue? (v : Value) : Option UpdateRate := do
  let (name, payload) ← v.alternative?
  match name with
  | "Native" => if payload.isNull then some .native else none
  | "Max" => do
    let n ← payload.word?
    if n < UInt32.size then some (.atMost n.toUInt32) else none
  | _ => none

def toValue : UpdateRate → Value
  | .native => .string "Native"
  | .atMost hertz => .object [("Max", .nat hertz.toNat)]

end UpdateRate

end LivePlayback
