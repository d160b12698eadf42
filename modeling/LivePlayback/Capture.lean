import LivePlayback.Fault

/-!
# Captures

A capture is a sequence of records, each a frame behind its length as four bytes, highest first.
No record is longer than 64 MiB.
-/

namespace LivePlayback.Capture
set_option autoImplicit false

def maxLength : Nat := 64 * 1024 * 1024

/-- Length of the field in front of a frame. -/
def fieldLength : Nat := 4

def fault (details : String) : Fault := .decode "capture record" details

def lengthField (n : Nat) : ByteArray :=
  ⟨#[(n >>> 24).toUInt8, (n >>> 16).toUInt8, (n >>> 8).toUInt8, n.toUInt8]⟩

/-- The number in the first four bytes, if there are that many. -/
def readLength? (bytes : ByteArray) : Option Nat := do
  let a ← bytes[0]?
  let b ← bytes[1]?
  let c ← bytes[2]?
  let d ← bytes[3]?
  some (((a.toNat * 256 + b.toNat) * 256 + c.toNat) * 256 + d.toNat)

/-- The capture with one more record. -/
def append (capture frame : ByteArray) : Except Fault ByteArray :=
  if frame.size ≤ maxLength then .ok (capture ++ lengthField frame.size ++ frame)
  else .error (fault s!"frame of {frame.size} bytes exceeds {maxLength}")

/-- What the beginning of a capture holds. -/
inductive Head where
  | record (frame rest : ByteArray)
  /-- Too short; so many bytes are needed before more can be said. -/
  | short (needed : Nat)
  | oversized (length : Nat)

def head (bytes : ByteArray) : Head :=
  match readLength? bytes with
  | none => .short fieldLength
  | some length =>
    let total := fieldLength + length
    if maxLength < length then .oversized length
    else if bytes.size < total then .short total
    else .record (bytes.extract fieldLength total) (bytes.extract total bytes.size)

def oversizedFault (length : Nat) : Fault :=
  fault s!"record length {length} exceeds {maxLength}"

def truncatedFault (trailing : Nat) : Fault :=
  fault s!"truncated record: {trailing} trailing bytes"

end LivePlayback.Capture
