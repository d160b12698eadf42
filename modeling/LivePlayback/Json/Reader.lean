import LivePlayback.Json.Value

/-!
# Reading JSON

A machine that is fed one character at a time. It keeps the containers that are still open and
what is expected next, so a document is read by one fold and refused at its first wrong character.
-/

namespace LivePlayback.Json
set_option autoImplicit false

/-- Containers nested deeper than this are refused. -/
def maxDepth : Nat := 127

/-- An open container; items are kept newest first. -/
inductive Open where
  | array (items : List Value)
  | object (fields : Fields)
  /-- An object whose entry with this key still lacks its value. -/
  | entry (fields : Fields) (key : String)

/-- A backslash in a string and what it stands for so far. -/
inductive Escape where
  | none
  | started
  /-- Some of four digits, after a high surrogate if there was one. -/
  | hex (count value : Nat) (high : Option Nat)
  /-- A high surrogate waits for the backslash of its low one. -/
  | high (unit : Nat)
  | highStarted (unit : Nat)

inductive Expected where
  | value
  /-- A value, or the end of an array without any. -/
  | firstItem
  /-- A key, or the end of an object without any. -/
  | firstKey
  | key
  | colon
  /-- Whatever may follow a value. -/
  | next (v : Value)
  | word (rest : List Char) (v : Value)
  | number (written : List Char)
  | string (isKey : Bool) (written : List Char) (escape : Escape)

structure Reader where
  stack : List Open
  expected : Expected

namespace Reader

def start : Reader := ⟨[], .value⟩

def isBlank (c : Char) : Bool := c == ' ' || c == '\t' || c == '\n' || c == '\r'

def isNumberChar (c : Char) : Bool :=
  c.isDigit || c == '-' || c == '+' || c == '.' || c == 'e' || c == 'E'

def hexValue? (c : Char) : Option Nat :=
  if c.isDigit then some (c.toNat - '0'.toNat)
  else if 'a' ≤ c ∧ c ≤ 'f' then some (c.toNat - 'a'.toNat + 10)
  else if 'A' ≤ c ∧ c ≤ 'F' then some (c.toNat - 'A'.toNat + 10)
  else none

/-- The character after a backslash that stands for one character. -/
def unescaped? (c : Char) : Option Char :=
  match c with
  | '"' => some '"'
  | '\\' => some '\\'
  | '/' => some '/'
  | 'b' => some '\x08'
  | 'f' => some '\x0c'
  | 'n' => some '\n'
  | 'r' => some '\r'
  | 't' => some '\t'
  | _ => none

def isHigh (unit : Nat) : Bool := 0xD800 ≤ unit && unit ≤ 0xDBFF

def isLow (unit : Nat) : Bool := 0xDC00 ≤ unit && unit ≤ 0xDFFF

def paired (high low : Nat) : Char :=
  Char.ofNat (0x10000 + (high - 0xD800) * 0x400 + (low - 0xDC00))

/-- Four digits are complete: a character, half of a pair, or a fault. -/
def unit? (written : List Char) (high : Option Nat) (unit : Nat) : Option (List Char × Escape) :=
  match high with
  | some h => if isLow unit then some (paired h unit :: written, .none) else none
  | none =>
    if isHigh unit then some (written, .high unit)
    else if isLow unit then none
    else some (Char.ofNat unit :: written, .none)

def inString? (written : List Char) (escape : Escape) (c : Char) :
    Option (List Char × Escape) :=
  match escape with
  | .none =>
    if c = '\\' then some (written, .started)
    else if c.toNat < 0x20 then none
    else some (c :: written, .none)
  | .started =>
    if c = 'u' then some (written, .hex 0 0 none)
    else (unescaped? c).map fun d => (d :: written, .none)
  | .hex count value high => do
    let value := value * 16 + (← hexValue? c)
    if count = 3 then unit? written high value else some (written, .hex (count + 1) value high)
  | .high unit => if c = '\\' then some (written, .highStarted unit) else none
  | .highStarted unit => if c = 'u' then some (written, .hex 0 0 (some unit)) else none

def opened (r : Reader) (o : Open) (e : Expected) : Option Reader :=
  if r.stack.length < maxDepth then some ⟨o :: r.stack, e⟩ else none

def feedValue (r : Reader) (c : Char) : Option Reader :=
  match c with
  | '[' => r.opened (.array []) .firstItem
  | '{' => r.opened (.object []) .firstKey
  | '"' => some { r with expected := .string false [] .none }
  | 't' => some { r with expected := .word ['r', 'u', 'e'] (.bool true) }
  | 'f' => some { r with expected := .word ['a', 'l', 's', 'e'] (.bool false) }
  | 'n' => some { r with expected := .word ['u', 'l', 'l'] .null }
  | c =>
    if c == '-' || c.isDigit then some { r with expected := .number [c] }
    else if isBlank c then some r
    else none

def closeString (r : Reader) (isKey : Bool) (written : List Char) : Option Reader :=
  let s := String.ofList written.reverse
  if isKey then
    match r.stack with
    | .object fields :: rest => some ⟨.entry fields s :: rest, .colon⟩
    | _ => none
  else some { r with expected := .next (.string s) }

/-- The character after a value: a blank, a separator, or the end of the container. -/
def feedNext (r : Reader) (v : Value) (c : Char) : Option Reader :=
  if isBlank c then some { r with expected := .next v }
  else
    match r.stack with
    | .array items :: rest =>
      if c = ',' then some ⟨.array (v :: items) :: rest, .value⟩
      else if c = ']' then some ⟨rest, .next (.array (v :: items).reverse)⟩
      else none
    | .entry fields key :: rest =>
      let fields := Entries.insert key v fields
      if c = ',' then some ⟨.object fields :: rest, .key⟩
      else if c = '}' then some ⟨rest, .next (.object fields)⟩
      else none
    | _ => none

def number? (written : List Char) : Option Value := do
  let literal ← Literal.ofChars? written.reverse
  (← literal.value?) |> Value.number |> some

def feed (r : Reader) (c : Char) : Option Reader :=
  match r.expected with
  | .value => r.feedValue c
  | .firstItem =>
    if c = ']' then
      match r.stack with
      | .array items :: rest => some ⟨rest, .next (.array items)⟩
      | _ => none
    else r.feedValue c
  | .firstKey =>
    if c = '}' then
      match r.stack with
      | .object fields :: rest => some ⟨rest, .next (.object fields)⟩
      | _ => none
    else if c = '"' then some { r with expected := .string true [] .none }
    else if isBlank c then some r
    else none
  | .key =>
    if c = '"' then some { r with expected := .string true [] .none }
    else if isBlank c then some r
    else none
  | .colon =>
    if c = ':' then some { r with expected := .value }
    else if isBlank c then some r
    else none
  | .next v => r.feedNext v c
  | .word [] v => r.feedNext v c
  | .word (d :: rest) v =>
    if c = d then some { r with expected := if rest.isEmpty then .next v else .word rest v }
    else none
  | .number written =>
    if isNumberChar c then some { r with expected := .number (c :: written) }
    else do r.feedNext (← number? written) c
  | .string isKey written escape =>
    match escape with
    | .none =>
      if c = '"' then r.closeString isKey written
      else (inString? written .none c).map fun (w, e) => { r with expected := .string isKey w e }
    | escape =>
      (inString? written escape c).map fun (w, e) => { r with expected := .string isKey w e }

def finish? (r : Reader) : Option Value :=
  match r.stack, r.expected with
  | [], .next v => some v
  | [], .number written => number? written
  | _, _ => none

end Reader

def Value.ofChars? (cs : List Char) : Option Value := do
  (← cs.foldlM Reader.feed Reader.start).finish?

def Value.ofText? (text : String) : Option Value := Value.ofChars? text.toList

end LivePlayback.Json
