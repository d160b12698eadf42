import LivePlayback.Yaml.Cursor

/-!
# Plain scalars

A plain scalar goes on until something else can start, over the breaks of lines that are indented
far enough. Breaks between its words are folded.
-/

namespace LivePlayback.Yaml
set_option autoImplicit false

/-- Breaks between two words: a single line feed becomes a space, the first of several is lost. -/
def foldBreaks : List Char → List Char
  | ['\n'] => [' ']
  | '\n' :: rest => rest
  | breaks => breaks

def isFlowMark (c : Char) : Bool := c ∈ [',', '[', ']', '{', '}']

/-- Characters with which no plain scalar starts. -/
def isIndicator (c : Char) : Bool :=
  c ∈ [',', '[', ']', '{', '}', '#', '&', '*', '!', '|', '>', '\'', '"', '%', '@', '\x60']

def startsPlain (flow : Bool) (c : Char) (rest : List Char) : Bool :=
  if c == '-' then !endsWord rest
  else if c == '?' || c == ':' then !flow && !endsWord rest
  else !isIndicator c

namespace Plain

/-- What stands between two words. -/
structure Gap where
  /-- Newest first, as all lists here. -/
  blanks : List Char
  breaks : List Char

namespace Gap

def none : Gap := ⟨[], []⟩

def isNone (g : Gap) : Bool := g.blanks.isEmpty && g.breaks.isEmpty

/-- Blanks count only on the line of the word in front of them. -/
def text (g : Gap) : List Char :=
  if g.breaks.isEmpty then g.blanks else (foldBreaks g.breaks.reverse).reverse

def addBlank (g : Gap) (c : Char) : Gap :=
  if g.breaks.isEmpty then { g with blanks := c :: g.blanks } else g

def addBreak (g : Gap) (c : Char) : Gap := ⟨[], breakChar c :: g.breaks⟩

end Gap

/-- A word does not go on with this character. -/
def endsWordAt (flow : Bool) (c : Char) (rest : List Char) : Bool :=
  (c == ':' && endsWord rest) || (flow && isFlowMark c)

/-- No other word starts here, behind a gap. -/
def endsAt (flow : Bool) (indent line column : Nat) (text : List Char) : Bool :=
  text.head? == some '#' || (!flow && column < indent)
    || Cursor.atDocumentMark ⟨text, line, column, false⟩

/-- The characters, newest first, and the place behind them and the gap that follows. A key may
start there if the gap holds a break. -/
def scan (flow : Bool) (indent line column : Nat) (taken : List Char) (gap : Gap) :
    List Char → Option (List Char × Cursor)
  | [] => some (taken, ⟨[], line, column, !gap.breaks.isEmpty⟩)
  | '\r' :: '\n' :: rest => scan flow indent (line + 1) 0 taken (gap.addBreak '\n') rest
  | c :: rest =>
    if isBreak c then scan flow indent (line + 1) 0 taken (gap.addBreak c) rest
    else if isBlank c then
      if c == '\t' && !gap.breaks.isEmpty && column < indent then none
      else scan flow indent line (column + 1) taken (gap.addBlank c) rest
    else if (!gap.isNone && endsAt flow indent line column (c :: rest)) || endsWordAt flow c rest then
      some (taken, ⟨c :: rest, line, column, !gap.breaks.isEmpty⟩)
    else if flow && c == ':' && rest.head?.any (fun d => d == '?' || isFlowMark d) then none
    else scan flow indent line (column + 1) (c :: (gap.text ++ taken)) .none rest

end Plain

/-- A plain scalar, whose further lines are indented by `indent` columns outside of flow style. -/
def plain? (flow : Bool) (indent : Nat) (c : Cursor) : Option (List Char × Cursor) :=
  match Plain.scan flow indent c.line c.column [] .none c.rest with
  | some ([], _) | none => none
  | some (text, c) => some (text.reverse, c)

end LivePlayback.Yaml
