import LivePlayback.Yaml.Mapping

/-!
# Documents

A text with at most one document, which is empty or a flat mapping. Directives may stand in front of
a document, and then a mark has to start it; the mapping itself may have properties.
-/

namespace LivePlayback.Yaml
set_option autoImplicit false

abbrev Entry := String × Scalar

namespace Document

/-- Nothing follows but marks that end the document. -/
def isOver : Nat → Cursor → Bool
  | 0, _ => false
  | bound + 1, c =>
    let c := c.seek false
    c.atEnd || (c.atMark '.' && isOver bound { c.skip 3 with keyAllowed := false })

/-- The anchor of the mapping is known inside of it, but is no scalar there. -/
def mappingOf (p : Properties) : Mapping :=
  ⟨[], match p.anchor with
    | some name => Anchors.none.define name none
    | none => .none⟩

/-- The mapping of a document, behind so many properties at most; nothing is an empty mapping, unless
a mark of the end is all there is. -/
def root? (handles : Tag.Handles) (bound : Nat) (begun : Bool) :
    Nat → Properties → Cursor → Option (Mapping × Cursor)
  | owed, p, c =>
    let c := c.seek false
    if c.atEnd then some (mappingOf p, c)
    else if c.atDocumentMark then if begun || !p.isNone then some (mappingOf p, c) else none
    else if c.rest.head? = some '\x7b' then
      Mapping.flow? handles bound (mappingOf p) { c.skip 1 with keyAllowed := true }
    else if Mapping.startsBlock handles c then
      Mapping.block? handles c.column bound (mappingOf p) c
    else match owed, p.add? ⟨false, none, 0, handles⟩ c with
      | owed + 1, some (p, c) => root? handles bound begun owed p c
      | _, _ => none

/-- The mapping of the only document, with what stands in front of it. -/
def read? (bound : Nat) : Nat → Directives → Cursor → Option Mapping
  | 0, _, _ => none
  | more + 1, d, c =>
    let c := c.seek false
    if c.column = 0 && c.rest.head? = some '%' then do
      let (d, c) ← d.add? c
      read? bound more d c
    else if c.atMark '-' then do
      let (m, c) ← root? d.handles bound true 2 .none { c.skip 3 with keyAllowed := false }
      if isOver bound c then some m else none
    else if !d.isNone then none
    else do
      let (m, c) ← root? [] bound false 2 .none c
      if isOver bound c then some m else none

end Document

namespace Mapping

/-- The entries in the order of the text, if all of their nodes are scalars. -/
def scalars? (m : Mapping) : Option (List Entry) :=
  m.entries.reverse.mapM fun (key, value) => do
    some ((← key.scalar? m.anchors).text, ← value.scalar? m.anchors)

end Mapping

/-- The entries of the mapping that a text is. -/
def entriesOfText? (text : String) : Option (List Entry) := do
  let cs := text.toList
  let bound := cs.length + 1
  if cs.all isPrintable then (← Document.read? bound bound .none (.start cs)).scalars? else none

end LivePlayback.Yaml
