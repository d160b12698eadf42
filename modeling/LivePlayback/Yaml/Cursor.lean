/-!
# Places in a YAML text

A cursor stands in front of what is left of a text. A key may start only where `keyAllowed` holds:
at the beginning of a line and behind some marks. There, tabs do not count as indentation.
-/

namespace LivePlayback.Yaml
set_option autoImplicit false

def isBlank (c : Char) : Bool := c == ' ' || c == '\t'

def isBreak (c : Char) : Bool :=
  c == '\n' || c == '\r' || c == '\u0085' || c == '\u2028' || c == '\u2029'

/-- How a line break is kept: the two Unicode separators as they are, all others as a line feed. -/
def breakChar (c : Char) : Char := if c == '\u2028' || c == '\u2029' then c else '\n'

/-- Characters that a document may hold anywhere. -/
def isPrintable (c : Char) : Bool :=
  let n := c.toNat
  isBlank c || isBreak c || (0x20 ≤ n && n ≤ 0x7E) || (0xA0 ≤ n && n ≤ 0xD7FF)
    || (0xE000 ≤ n && n ≤ 0xFFFD) || 0x10000 ≤ n

/-- Characters of names: those of anchors, directives and tag handles. -/
def isNameChar (c : Char) : Bool := c.isAlphanum || c == '_' || c == '-'

/-- A blank, a break or the end of the text follows. -/
def endsWord : List Char → Bool
  | [] => true
  | c :: _ => isBlank c || isBreak c

structure Cursor where
  rest : List Char
  line : Nat
  column : Nat
  keyAllowed : Bool

namespace Cursor

def start (text : List Char) : Cursor := ⟨text, 0, 0, true⟩

/-- Past some characters of the line. -/
def skip (c : Cursor) (n : Nat) : Cursor :=
  { c with rest := c.rest.drop n, column := c.column + n }

/-- The characters in front that have a property which no break has, and the place behind them. -/
def span (c : Cursor) (p : Char → Bool) : List Char × Cursor :=
  let taken := c.rest.takeWhile p
  (taken, c.skip taken.length)

def skipBlanks (c : Cursor) : Cursor := (c.span isBlank).2

def atEnd (c : Cursor) : Bool := c.rest.isEmpty

/-- Three equal characters that stand for themselves at the beginning of a line. -/
def atMark (c : Cursor) (mark : Char) : Bool :=
  c.column == 0 && c.rest.take 3 == [mark, mark, mark] && endsWord (c.rest.drop 3)

/-- The mark that starts a document, or the one that ends it. -/
def atDocumentMark (c : Cursor) : Bool := c.atMark '-' || c.atMark '.'

/-- Past one break, if there is one. -/
def skipBreak (c : Cursor) : Cursor :=
  match c.rest with
  | '\r' :: '\n' :: rest => { c with rest, line := c.line + 1, column := 0 }
  | b :: rest => if isBreak b then { c with rest, line := c.line + 1, column := 0 } else c
  | [] => c

/-- Past blanks and a comment to the end of the line; none if anything else stands there. -/
def skipLine? (c : Cursor) : Option Cursor :=
  let c := c.skipBlanks
  let c := if c.rest.head? = some '#' then (c.span fun x => !isBreak x).2 else c
  if c.rest.head?.all isBreak then some c.skipBreak else none

/-- Past blanks, comments and breaks, and a byte order mark at the beginning of a line. -/
def seek (flow : Bool) (c : Cursor) : Cursor := go false c.keyAllowed c.line c.column c.rest
where
  go (comment keyAllowed : Bool) (line column : Nat) : List Char → Cursor
    | [] => ⟨[], line, column, keyAllowed⟩
    | '\r' :: '\n' :: rest => go false (keyAllowed || !flow) (line + 1) 0 rest
    | c :: rest =>
      if isBreak c then go false (keyAllowed || !flow) (line + 1) 0 rest
      else if comment || c == '#' then go true keyAllowed line (column + 1) rest
      else if c == ' ' || (c == '\t' && (flow || !keyAllowed)) || (c == '\uFEFF' && column == 0)
        then go false keyAllowed line (column + 1) rest
      else ⟨c :: rest, line, column, keyAllowed⟩

end Cursor

end LivePlayback.Yaml
