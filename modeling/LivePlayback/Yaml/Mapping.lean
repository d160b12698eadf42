import LivePlayback.Yaml.Node

/-!
# Flat mappings

The entries of a mapping of scalars, in block or flow style, in the order of the text, repeated keys
included. A key that is not announced by a question mark stands on one line with the colon behind
it, and not too far in front of it.
-/

namespace LivePlayback.Yaml
set_option autoImplicit false

/-- The entries read so far, newest first. -/
structure Mapping where
  entries : List (Node × Node)
  anchors : Anchors

namespace Mapping

/-- The most columns between the beginning of a key and its colon. -/
def maxKeyLength : Nat := 1024

/-- Past a colon, in block style with something that ends a word behind it. -/
def colon? (flow : Bool) (c : Cursor) : Option Cursor :=
  match c.rest with
  | ':' :: rest => if flow || endsWord rest then some (c.skip 1) else none
  | _ => none

/-- A key on one line with its colon. -/
def simpleKey? (place : Place) (anchors : Anchors) (c : Cursor) :
    Option (Node × Anchors × Cursor) := do
  let (key, anchors, behind) ← Node.read? place anchors c
  let colon := behind.seek place.flow
  if colon.line = c.line && colon.column ≤ c.column + maxKeyLength then
    some (key, anchors, { (← colon? place.flow colon) with keyAllowed := false })
  else none

/-- A question mark announces a key. -/
def atQuestion (flow : Bool) (c : Cursor) : Bool :=
  match c.rest with
  | '?' :: rest => flow || endsWord rest
  | _ => false

/-- The place of nodes in a block mapping at a column. -/
def blockPlace (handles : Tag.Handles) (column : Nat) : Place :=
  ⟨false, some column, column + 1, handles⟩

/-- An announced key and its colon, which starts a line. -/
def blockKey? (handles : Tag.Handles) (column : Nat) (anchors : Anchors) (c : Cursor) :
    Option (Node × Anchors × Cursor) := do
  let (key, anchors, behind) ←
    Node.read? (blockPlace handles column) anchors { c.skip 1 with keyAllowed := true }
  let colon := behind.seek false
  if colon.column = column && colon.keyAllowed then
    some (key, anchors, { (← colon? false colon) with keyAllowed := true })
  else none

/-- Entries of a block mapping at a column, up to the end of the document; one at most for each
character. -/
def block? (handles : Tag.Handles) (column : Nat) :
    Nat → Mapping → Cursor → Option (Mapping × Cursor)
  | 0, _, _ => none
  | bound + 1, m, c =>
    let c := c.seek false
    if c.atEnd || c.atDocumentMark then some (m, c)
    else if c.column ≠ column || !c.keyAllowed then none
    else do
      let (key, anchors, c) ←
        if atQuestion false c then blockKey? handles column m.anchors c
        else simpleKey? { blockPlace handles column with least := 0 } m.anchors c
      let (value, anchors, c) ← Node.read? (blockPlace handles column) anchors c
      block? handles column bound ⟨(key, value) :: m.entries, anchors⟩ c

/-- Whether a block mapping starts here. -/
def startsBlock (handles : Tag.Handles) (c : Cursor) : Bool :=
  c.keyAllowed && (atQuestion false c || (simpleKey? ⟨false, none, 0, handles⟩ .none c).isSome)

def flowPlace (handles : Tag.Handles) : Place := ⟨true, none, 0, handles⟩

/-- A key of a flow mapping and its colon, which may stand anywhere behind an announced one. -/
def flowKey? (handles : Tag.Handles) (anchors : Anchors) (c : Cursor) :
    Option (Node × Anchors × Cursor) :=
  let place := flowPlace handles
  if atQuestion true c then do
    let (key, anchors, behind) ← Node.read? place anchors (c.skip 1)
    some (key, anchors, ← colon? true (behind.seek true))
  else simpleKey? place anchors c

/-- Entries of a flow mapping and its closing brace, in front of which a comma may stand. -/
def flow? (handles : Tag.Handles) : Nat → Mapping → Cursor → Option (Mapping × Cursor)
  | 0, _, _ => none
  | bound + 1, m, c =>
    let c := c.seek true
    if c.rest.head? = some '}' then some (m, { c.skip 1 with keyAllowed := false })
    else do
      let (key, anchors, c) ← flowKey? handles m.anchors c
      let (value, anchors, c) ← Node.read? (flowPlace handles) anchors c
      let m : Mapping := ⟨(key, value) :: m.entries, anchors⟩
      let c := c.seek true
      match c.rest with
      | ',' :: _ => flow? handles bound m (c.skip 1)
      | '}' :: _ => some (m, { c.skip 1 with keyAllowed := false })
      | _ => none

end Mapping

end LivePlayback.Yaml
