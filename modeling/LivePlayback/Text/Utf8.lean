/-!
# UTF-8 with a fault position

`decode` accepts exactly the well-formed byte strings. A refused one carries the length of its
longest well-formed beginning and, unless the bytes just end too early, how many of the next bytes
belong to the broken sequence.
-/

namespace LivePlayback.Text
set_option autoImplicit false

/-- Where a byte string stops being UTF-8. -/
structure Utf8Fault where
  index : Nat
  /-- Length of the broken sequence; none when the bytes end inside a sequence. -/
  broken : Option Nat
  deriving DecidableEq, Repr

namespace Utf8Fault

def message (f : Utf8Fault) : String :=
  match f.broken with
  | some n => s!"invalid utf-8 sequence of {n} bytes from index {f.index}"
  | none => s!"incomplete utf-8 byte sequence from index {f.index}"

end Utf8Fault

/-- The ranges of the bytes after a leading byte, in order; none for a byte that leads nothing. -/
def followers (b : UInt8) : Option (List (UInt8 × UInt8)) :=
  if b ≤ 0x7F then some []
  else if b < 0xC2 then none
  else if b ≤ 0xDF then some [(0x80, 0xBF)]
  else if b = 0xE0 then some [(0xA0, 0xBF), (0x80, 0xBF)]
  else if b = 0xED then some [(0x80, 0x9F), (0x80, 0xBF)]
  else if b ≤ 0xEF then some [(0x80, 0xBF), (0x80, 0xBF)]
  else if b = 0xF0 then some [(0x90, 0xBF), (0x80, 0xBF), (0x80, 0xBF)]
  else if b ≤ 0xF3 then some [(0x80, 0xBF), (0x80, 0xBF), (0x80, 0xBF)]
  else if b = 0xF4 then some [(0x80, 0x8F), (0x80, 0xBF), (0x80, 0xBF)]
  else none

/-- The first fault, when the sequence at `start` has had `taken` bytes and owes `owed`. -/
def scan (start taken : Nat) (owed : List (UInt8 × UInt8)) : List UInt8 → Option Utf8Fault
  | [] => if owed.isEmpty then none else some ⟨start, none⟩
  | b :: rest =>
    match owed with
    | [] =>
      match followers b with
      | none => some ⟨start, some 1⟩
      | some [] => scan (start + 1) 0 [] rest
      | some (r :: more) => scan start 1 (r :: more) rest
    | (low, high) :: more =>
      if low ≤ b ∧ b ≤ high then
        match more with
        | [] => scan (start + taken + 1) 0 [] rest
        | r :: more => scan start (taken + 1) (r :: more) rest
      else some ⟨start, some taken⟩

def firstFault (bytes : ByteArray) : Utf8Fault :=
  (scan 0 0 [] bytes.data.toList).getD ⟨0, none⟩

/-- The text with these UTF-8 bytes. -/
def decode (bytes : ByteArray) : Except Utf8Fault String :=
  match String.fromUTF8? bytes with
  | some text => .ok text
  | none => .error (firstFault bytes)

theorem decode_eq_ok_iff {bytes : ByteArray} {text : String} :
    decode bytes = .ok text ↔ text.toUTF8 = bytes := by
  unfold decode String.fromUTF8?
  split
  · rename_i s h
    split at h
    · rename_i hv
      simp only [Option.some.injEq] at h
      subst h
      constructor
      · intro he
        simp only [Except.ok.injEq] at he
        subst he
        rfl
      · intro he
        subst he
        rfl
    · simp at h
  · rename_i h
    split at h
    · simp at h
    · rename_i hv
      constructor
      · simp
      · intro he
        subst he
        exact absurd text.isValidUTF8 (by simpa [ByteArray.validateUTF8_eq_true_iff] using hv)

end LivePlayback.Text
