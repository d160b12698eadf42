import LivePlayback.Yaml.Cursor

/-!
# Block scalars

A block scalar is made of all lines behind its header that are indented far enough. A literal one
keeps its breaks, a folded one joins lines that do not start with a blank. The header says what
becomes of the breaks at the end.
-/

namespace LivePlayback.Yaml
set_option autoImplicit false

namespace Block

inductive Chomping where
  | strip
  | clip
  | keep
  deriving DecidableEq, Repr

structure Header where
  chomping : Chomping
  /-- How far the lines are indented behind their parent, if it is said. -/
  increment : Option Nat

def chomping? (c : Char) : Option Chomping :=
  match c with
  | '-' => some .strip
  | '+' => some .keep
  | _ => none

/-- A digit that is not zero; none is a fault. -/
def increment? (c : Char) : Option Nat := if c = '0' then none else some (c.toNat - '0'.toNat)

/-- The two indicators in any order, each of which may be missing. -/
def header? (c : Cursor) : Option (Header × Cursor) :=
  match c.rest with
  | a :: b :: _ =>
    match chomping? a, chomping? b with
    | some chomping, _ =>
      if b.isDigit then (increment? b).map fun n => (⟨chomping, some n⟩, c.skip 2)
      else some (⟨chomping, none⟩, c.skip 1)
    | none, some chomping =>
      if a.isDigit then (increment? a).map fun n => (⟨chomping, some n⟩, c.skip 2)
      else some (⟨.clip, none⟩, c)
    | none, none =>
      if a.isDigit then (increment? a).map fun n => (⟨.clip, some n⟩, c.skip 1)
      else some (⟨.clip, none⟩, c)
  | [a] =>
    match chomping? a with
    | some chomping => some (⟨chomping, none⟩, c.skip 1)
    | none =>
      if a.isDigit then (increment? a).map fun n => (⟨.clip, some n⟩, c.skip 1)
      else some (⟨.clip, none⟩, c)
  | [] => some (⟨.clip, none⟩, c)

/-- What was read of a block; lists are newest first. -/
structure Body where
  /-- None until the first line that is not empty. -/
  indent : Option Nat
  /-- The deepest column of the empty lines so far. -/
  deepest : Nat
  taken : List Char
  lastBreak : List Char
  emptyBreaks : List Char
  /-- The last line starts with a blank. -/
  blankFirst : Bool
  inLine : Bool

namespace Body

def indents (b : Body) (column : Nat) : Bool := b.indent.all fun n => column < n

def startLine (b : Body) (literal : Bool) (indent : Nat) (c : Char) : Body :=
  let joined := !literal && b.lastBreak == ['\n'] && !b.blankFirst && !isBlank c
  let lead := if !joined then b.lastBreak else if b.emptyBreaks.isEmpty then [' '] else []
  { b with
    indent := some indent
    taken := c :: (b.emptyBreaks ++ (lead ++ b.taken))
    lastBreak := []
    emptyBreaks := []
    blankFirst := isBlank c
    inLine := true }

def addBreak (b : Body) (c : Char) : Body :=
  if b.inLine then { b with lastBreak := [breakChar c], inLine := false }
  else { b with emptyBreaks := breakChar c :: b.emptyBreaks }

def text (b : Body) (chomping : Chomping) : List Char :=
  let taken := match chomping with
    | .strip => b.taken
    | .clip => b.lastBreak ++ b.taken
    | .keep => b.emptyBreaks ++ (b.lastBreak ++ b.taken)
  taken.reverse

end Body

/-- All lines of the block, and the place of the first character behind them. -/
def scan (literal : Bool) (least line column : Nat) (b : Body) :
    List Char → Option (Body × Cursor)
  | [] => some (b, ⟨[], line, column, true⟩)
  | '\r' :: '\n' :: rest => scan literal least (line + 1) 0 (b.addBreak '\n') rest
  | c :: rest =>
    if isBreak c then scan literal least (line + 1) 0 (b.addBreak c) rest
    else if b.inLine then
      scan literal least line (column + 1) { b with taken := c :: b.taken } rest
    else if c == ' ' && b.indents column then
      scan literal least line (column + 1) { b with deepest := max b.deepest (column + 1) } rest
    else if c == '\t' && b.indents column then none
    else
      let indent := b.indent.getD (max b.deepest least)
      if column = indent then
        scan literal least line (column + 1) (b.startLine literal indent c) rest
      else some (b, ⟨c :: rest, line, column, true⟩)

end Block

/-- A literal or folded block inside something at a column, if it is inside anything; the cursor is
in front of its indicator. -/
def block? (literal : Bool) (parent : Option Nat) (c : Cursor) : Option (List Char × Cursor) := do
  let (header, c) ← Block.header? (c.skip 1)
  let c ← c.skipLine?
  let indent := header.increment.map fun n => parent.getD 0 + n
  let least := max 1 ((parent.map (· + 1)).getD 0)
  let (body, c) ← Block.scan literal least c.line c.column ⟨indent, 0, [], [], [], false, false⟩ c.rest
  some (body.text header.chomping, c)

end LivePlayback.Yaml
