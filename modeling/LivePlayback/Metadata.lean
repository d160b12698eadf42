import LivePlayback.Fault
import LivePlayback.Json.Printer
import LivePlayback.Json.Reader
import LivePlayback.Text.Utf8

/-!
# Stream metadata

A record read leniently from a JSON object. A known field of an unexpected type is not lost: it
stays among the extra entries under its own name.
-/

namespace LivePlayback
set_option autoImplicit false

open Json

structure Metadata where
  id : String
  name : String
  capturedAt : Option String
  /-- How many watch the stream, by kind and sorted by it. -/
  observers : List (String × Int)
  extra : Fields
  deriving DecidableEq, Repr

namespace Metadata

/-- The text of a scalar field, and the entries that are left. -/
def takeText (key : String) (fields : Fields) : String × Fields :=
  let rest := Entries.erase key fields
  match Entries.find? key fields with
  | some (.string s) => (s, rest)
  | some (.bool b) => ((Value.bool b).text, rest)
  | some (.number n) => ((Value.number n).text, rest)
  | some (.array _) | some (.object _) => ("", fields)
  | some .null | none => ("", rest)

def takeTime (fields : Fields) : Option String × Fields :=
  let rest := Entries.erase "at" fields
  match Entries.find? "at" fields with
  | some (.string s) => (some s, rest)
  | some .null | none => (none, rest)
  | some _ => (none, fields)

/-- The entries that are counts; the others are left out. -/
def counts (fields : Fields) : List (String × Int) :=
  fields.filterMap fun e => e.2.int64?.map fun n => (e.1, n)

def takeObservers (fields : Fields) : List (String × Int) × Fields :=
  let rest := Entries.erase "observers" fields
  match Entries.find? "observers" fields with
  | some (.object entries) => (counts entries, rest)
  | some .null | none => ([], rest)
  | some _ => ([], fields)

def ofFields (fields : Fields) : Metadata :=
  let (id, fields) := takeText "id" fields
  let (name, fields) := takeText "name" fields
  let (capturedAt, fields) := takeTime fields
  let (observers, extra) := takeObservers fields
  ⟨id, name, capturedAt, observers, extra⟩

def fault (details : String) : Fault := .decode "metadata json" details

def decode (payload : ByteArray) : Except Fault Metadata :=
  match Text.decode payload with
  | .error f => .error (fault f.message)
  | .ok text =>
    match Value.ofText? text with
    | some (.object fields) => .ok (ofFields fields)
    | some _ => .error (fault "not an object")
    | none => .error (fault "not a JSON document")

/-- The entries in the order in which they are written. -/
def toFields (m : Metadata) : Fields :=
  [("id", .string m.id), ("name", .string m.name)]
    ++ (m.capturedAt.toList.map fun t => ("at", .string t))
    ++ (if m.observers.isEmpty then []
        else [("observers", .object (m.observers.map fun e => (e.1, .int e.2)))])
    ++ m.extra

def encode (m : Metadata) : String := (Value.object m.toFields).text

def encodedExtra (m : Metadata) : String := (Value.object m.extra).text

def addCount? (total count : Int) : Option Int :=
  if fitsInt64 (total + count) then some (total + count) else none

/-- The sum in the order of the kinds; none as soon as it leaves 64 bits. -/
def observerTotal? (m : Metadata) : Option Int :=
  m.observers.foldlM (fun total e => addCount? total e.2) 0

end Metadata

end LivePlayback
