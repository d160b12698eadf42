import LivePlayback.Yaml.Cursor
import LivePlayback.Yaml.Scalar

/-!
# Tags and directives

A tag is written in full between angle brackets, or as a handle and a suffix. Handles stand for
prefixes, which directives in front of a document can set.
-/

namespace LivePlayback.Yaml
set_option autoImplicit false

namespace Tag

/-- Characters of a tag, besides escapes; a comma and square brackets only where they are free. -/
def isTagChar (free : Bool) (c : Char) : Bool :=
  isNameChar c || c ∈ [';', '/', '?', ':', '@', '&', '=', '+', '$', '.', '!', '~', '*', '\'', '(', ')']
    || (free && c ∈ [',', '[', ']'])

/-- How many octets a character has, by its first one. -/
def width? (octet : Nat) : Option Nat :=
  if octet < 0x80 then some 1
  else if 0xC0 ≤ octet && octet < 0xE0 then some 2
  else if 0xE0 ≤ octet && octet < 0xF0 then some 3
  else if 0xF0 ≤ octet && octet < 0xF8 then some 4
  else none

def hex? (a b : Char) : Option Nat :=
  let high := Scalar.digitValue a
  let low := Scalar.digitValue b
  if high < 16 && low < 16 then some (high * 16 + low) else none

/-- Octets that an escaped character still lacks after this one. -/
def lacking? (lacking octet : Nat) : Option Nat :=
  if lacking = 0 then (width? octet).map (· - 1)
  else if 0x80 ≤ octet && octet < 0xC0 then some (lacking - 1)
  else none

/-- The characters of a tag, with an octet for an escape, and how many were read. -/
def scan (free : Bool) (lacking read : Nat) (taken : List Char) :
    List Char → Option (List Char × Nat)
  | [] => if lacking = 0 then some (taken.reverse, read) else none
  | c :: rest =>
    if c == '%' then
      match rest with
      | a :: b :: rest => do
        let octet ← hex? a b
        scan free (← lacking? lacking octet) (read + 3) (Char.ofNat octet :: taken) rest
      | _ => none
    else if lacking ≠ 0 then none
    else if isTagChar free c then scan free 0 (read + 1) (c :: taken) rest
    else some (taken.reverse, read)

/-- The characters at a place; a zero octet ends them for good. -/
def chars? (free : Bool) (c : Cursor) : Option (List Char × Cursor) :=
  (scan free 0 0 [] c.rest).map fun (taken, read) => (taken.takeWhile (· ≠ '\x00'), c.skip read)

/-- An exclamation mark and a name, and another mark if there is one. -/
def handle (c : Cursor) : List Char × Cursor :=
  let (name, behind) := (c.skip 1).span isNameChar
  if behind.rest.head? = some '!' then ('!' :: name ++ ['!'], behind.skip 1)
  else ('!' :: name, behind)

/-- What handles stand for; the first one found counts. -/
abbrev Handles := List (List Char × List Char)

def commonHandles : Handles := [(['!'], ['!']), (['!', '!'], Scalar.coreTags)]

def expand? (handles : Handles) (handle : List Char) : Option (List Char) :=
  ((handles ++ commonHandles).find? fun h => h.1 == handle).map Prod.snd

def verbatim? (c : Cursor) : Option (List Char × Cursor) := do
  let (tag, behind) ← chars? true (c.skip 2)
  if behind.rest.head? = some '>' && behind.column ≠ c.column + 2 then some (tag, behind.skip 1)
  else none

/-- A tag made of a handle and a suffix; the mark alone is a tag, too. -/
def short? (handles : Handles) (c : Cursor) : Option (List Char × Cursor) := do
  let (handle, behind) := handle c
  if 2 ≤ handle.length && handle.getLast? = some '!' then
    let (suffix, ending) ← chars? false behind
    if ending.column = behind.column then none
    else some ((← expand? handles handle) ++ suffix, ending)
  else
    let (more, ending) ← chars? false behind
    match handle.tail ++ more with
    | [] => some (['!'], ending)
    | suffix => some ((← expand? handles ['!']) ++ suffix, ending)

end Tag

/-- A tag in full; the cursor is in front of its mark. A blank or a break has to follow, or a comma
in flow style. -/
def tag? (flow : Bool) (handles : Tag.Handles) (c : Cursor) : Option (List Char × Cursor) := do
  let (tag, behind) ←
    if (c.rest.drop 1).head? = some '<' then Tag.verbatim? c else Tag.short? handles c
  if endsWord behind.rest || (flow && behind.rest.head? = some ',') then some (tag, behind)
  else none

structure Directives where
  versioned : Bool
  handles : Tag.Handles

namespace Directives

def none : Directives := ⟨false, []⟩

def isNone (d : Directives) : Bool := !d.versioned && d.handles.isEmpty

def number? (c : Cursor) : Option (Nat × Cursor) :=
  let (digits, behind) := c.span Char.isDigit
  if 0 < digits.length && digits.length ≤ 9 then
    some (digits.foldl (fun n d => n * 10 + Scalar.digitValue d) 0, behind)
  else .none

/-- The versions 1.1 and 1.2 are understood, and said only once. -/
def version? (d : Directives) (c : Cursor) : Option (Directives × Cursor) := do
  let (major, c) ← number? c.skipBlanks
  if c.rest.head? ≠ some '.' then .none
  else
    let (minor, c) ← number? (c.skip 1)
    if !d.versioned && major = 1 && (minor = 1 || minor = 2) then
      some ({ d with versioned := true }, c)
    else .none

/-- Sets the prefix of a handle, which may be set once. -/
def handle? (d : Directives) (c : Cursor) : Option (Directives × Cursor) := do
  let c := c.skipBlanks
  if c.rest.head? ≠ some '!' then .none
  else
    let (handle, c) := Tag.handle c
    if (2 ≤ handle.length && handle.getLast? ≠ some '!') || !c.rest.head?.any isBlank
        || d.handles.any (fun h => h.1 == handle) then .none
    else
      let c := c.skipBlanks
      let (pre, behind) ← Tag.chars? true c
      if behind.column = c.column || !endsWord behind.rest then .none
      else some ({ d with handles := d.handles ++ [(handle, pre)] }, behind)

/-- One more directive; the cursor is in front of its percent sign. -/
def add? (d : Directives) (c : Cursor) : Option (Directives × Cursor) := do
  let (name, c) := (c.skip 1).span isNameChar
  if !endsWord c.rest then .none
  else
    let (d, c) ← match String.ofList name with
      | "YAML" => d.version? c
      | "TAG" => d.handle? c
      | _ => .none
    some (d, { (← c.skipLine?) with keyAllowed := false })

end Directives

end LivePlayback.Yaml
