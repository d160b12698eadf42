import LivePlayback.Yaml.Block
import LivePlayback.Yaml.Quoted
import LivePlayback.Yaml.Tag

/-!
# Nodes

A scalar with its properties, or an alias of an earlier node. Collections inside of others are no
nodes here, for a flat mapping has no use for them.
-/

namespace LivePlayback.Yaml
set_option autoImplicit false

/-- What anchors stand for. An anchor gets the number of names there were before it, also one whose
name is taken, so that two of them can share a number; then the later one counts. -/
structure Anchors where
  /-- Newest first, each name once. -/
  names : List (List Char × Nat)
  /-- Newest first; none for what is no scalar. -/
  targets : List (Nat × Option Scalar)

namespace Anchors

def none : Anchors := ⟨[], []⟩

def define (a : Anchors) (name : List Char) (target : Option Scalar) : Anchors :=
  let number := a.names.length
  ⟨(name, number) :: a.names.filter (fun n => n.1 != name), (number, target) :: a.targets⟩

def number? (a : Anchors) (name : List Char) : Option Nat :=
  (a.names.find? fun n => n.1 == name).map Prod.snd

def target? (a : Anchors) (number : Nat) : Option Scalar :=
  (a.targets.find? fun t => t.1 == number).bind Prod.snd

end Anchors

inductive Node where
  | scalar (s : Scalar)
  | reference (number : Nat)

namespace Node

/-- The scalar that a node is in the end. -/
def scalar? (anchors : Anchors) : Node → Option Scalar
  | scalar s => some s
  | reference number => anchors.target? number

end Node

structure Place where
  flow : Bool
  /-- The column of the block mapping around them. -/
  parent : Option Nat
  /-- Nodes start at this column or behind it; the indicator of a block may stand one before it. -/
  least : Nat
  handles : Tag.Handles

/-- Both are optional, in any order. -/
structure Properties where
  anchor : Option (List Char)
  tag : Option (List Char)

namespace Properties

def none : Properties := ⟨.none, .none⟩

def isNone (p : Properties) : Bool := p.anchor.isNone && p.tag.isNone

/-- The name of an anchor or an alias; the cursor is in front of its mark. -/
def name? (c : Cursor) : Option (List Char × Cursor) :=
  let (name, behind) := (c.skip 1).span isNameChar
  let ends := endsWord behind.rest
    || behind.rest.head?.any (· ∈ ['?', ':', ',', ']', '}', '%', '@', '\x60'])
  if !name.isEmpty && ends then some (name, { behind with keyAllowed := false }) else .none

/-- One more property, if there is one and nothing of its kind before it. -/
def add? (place : Place) (p : Properties) (c : Cursor) : Option (Properties × Cursor) :=
  match c.rest.head? with
  | some '&' =>
    if p.anchor.isSome then .none
    else (name? c).map fun (name, c) => ({ p with anchor := some name }, c)
  | some '!' =>
    if p.tag.isSome then .none
    else (tag? place.flow place.handles c).map fun (tag, c) =>
      ({ p with tag := some tag }, { c with keyAllowed := false })
  | _ => .none

end Properties

namespace Node

def startsAt (place : Place) (c : Cursor) : Bool :=
  if c.rest.head?.any (fun x => x == '|' || x == '>') then !place.flow && place.least ≤ c.column + 1
  else place.least ≤ c.column

def content? (place : Place) (c : Cursor) : Option (Style × List Char × Cursor) :=
  match c.rest with
  | [] => none
  | x :: rest =>
    if x == '|' then (block? true place.parent c).map (Style.literal, ·)
    else if x == '>' then (block? false place.parent c).map (Style.folded, ·)
    else if x == '\'' then (quoted? true c).map (Style.singleQuoted, ·)
    else if x == '"' then (quoted? false c).map (Style.doubleQuoted, ·)
    else if startsPlain place.flow x rest then
      (plain? place.flow ((place.parent.map (· + 1)).getD 0) c).map (Style.plain, ·)
    else none

def ofContent? (place : Place) (anchors : Anchors) (p : Properties) (c : Cursor) :
    Option (Node × Anchors × Cursor) :=
  (content? place c).map fun (style, chars, c) =>
    let s : Scalar := ⟨style, p.tag, chars⟩
    let anchors := match p.anchor with
      | some name => anchors.define name (some s)
      | none => anchors
    (.scalar s, anchors, c)

/-- The rest of a node when so many properties can still follow. -/
def more? (place : Place) (anchors : Anchors) :
    Nat → Properties → Cursor → Option (Node × Anchors × Cursor)
  | owed, p, c =>
    let c := c.seek place.flow
    if !startsAt place c then none
    else match owed, p.add? place c with
      | owed + 1, some (p, c) => more? place anchors owed p c
      | _, _ => ofContent? place anchors p c

def read? (place : Place) (anchors : Anchors) (c : Cursor) : Option (Node × Anchors × Cursor) :=
  let c := c.seek place.flow
  if c.rest.head? = some '*' && startsAt place c then do
    let (name, c) ← Properties.name? c
    some (.reference (← anchors.number? name), anchors, c)
  else more? place anchors 2 .none c

end Node

end LivePlayback.Yaml
