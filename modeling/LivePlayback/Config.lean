import LivePlayback.Fault
import LivePlayback.Json.Value
import LivePlayback.Text.Utf8
import LivePlayback.Yaml.Document

/-!
# Configuration

The settings of a player, in milliseconds where they are times. They are read from a flat YAML
mapping, in which every field may be left out; no field may be repeated or unknown.
-/

namespace LivePlayback
set_option autoImplicit false

structure Config where
  reconnectDelayMillis : UInt64 := 3000
  /-- A hidden surface is kept at the live edge. -/
  catchUpLiveEdge : Bool := true
  liveEdgeOffsetMillis : UInt64 := 1000
  eventCapacity : UInt64 := 64
  closeTimeoutMillis : UInt64 := 1000
  deriving DecidableEq, Repr

namespace Config

def reconnectDelay (c : Config) : Duration := .ofMillis c.reconnectDelayMillis.toNat

def liveEdgeOffset (c : Config) : Duration := .ofMillis c.liveEdgeOffsetMillis.toNat

def closeTimeout (c : Config) : Duration := .ofMillis c.closeTimeoutMillis.toNat

def validate (c : Config) : Except Fault Config :=
  if c.reconnectDelayMillis = 0 then
    .error (.config "reconnect_delay_ms must be greater than zero")
  else if c.eventCapacity = 0 then
    .error (.config "event_capacity must be greater than zero")
  else .ok c

inductive Field where
  | reconnectDelay | catchUpLiveEdge | liveEdgeOffset | eventCapacity | closeTimeout
  deriving DecidableEq, Repr

namespace Field

def name : Field → String
  | .reconnectDelay => "reconnect_delay_ms"
  | .catchUpLiveEdge => "catch_up_live_edge"
  | .liveEdgeOffset => "live_edge_offset_ms"
  | .eventCapacity => "event_capacity"
  | .closeTimeout => "close_timeout_ms"

def all : List Field :=
  [.reconnectDelay, .catchUpLiveEdge, .liveEdgeOffset, .eventCapacity, .closeTimeout]

def ofName? (s : String) : Option Field := all.find? fun f => f.name == s

end Field

/-- Sets a field to what a reader of words or truth values finds. -/
def set? (c : Config) (f : Field) (word : Option Nat) (truth : Option Bool) : Option Config :=
  match f with
  | .reconnectDelay => word.map fun n => { c with reconnectDelayMillis := n.toUInt64 }
  | .catchUpLiveEdge => truth.map fun b => { c with catchUpLiveEdge := b }
  | .liveEdgeOffset => word.map fun n => { c with liveEdgeOffsetMillis := n.toUInt64 }
  | .eventCapacity => word.map fun n => { c with eventCapacity := n.toUInt64 }
  | .closeTimeout => word.map fun n => { c with closeTimeoutMillis := n.toUInt64 }

/-- The defaults with the fields of a YAML mapping. -/
def ofEntries? (c : Config) (seen : List Field) : List Yaml.Entry → Option Config
  | [] => some c
  | (key, value) :: rest => do
    let f ← Field.ofName? key
    if f ∈ seen then none
    else (← c.set? f value.word? value.bool?).ofEntries? (f :: seen) rest

/-- The settings with those fields of a JSON object that they have. -/
def withFields (c : Config) (fields : Json.Fields) : Option Config :=
  fields.foldlM (fun c (key, value) => do
    c.set? (← Field.ofName? key) value.word? value.bool?) c

def documentFault : Fault := .configDocument "not a flat mapping of known fields"

def ofText (text : String) : Except Fault Config :=
  match (Yaml.entriesOfText? text).bind (ofEntries? {} []) with
  | some c => c.validate
  | none => .error documentFault

/-- A file's content, or why it cannot be read. -/
def ofFile (path : String) (content : Except IoFault ByteArray) : Except Fault Config :=
  match content with
  | .error cause => .error (.file path cause)
  | .ok bytes =>
    match Text.decode bytes with
    | .error _ => .error (.file path .notUtf8)
    | .ok text => ofText text

def toFields (c : Config) : Json.Fields :=
  [("catch_up_live_edge", .bool c.catchUpLiveEdge),
    ("close_timeout_ms", .nat c.closeTimeoutMillis.toNat),
    ("event_capacity", .nat c.eventCapacity.toNat),
    ("live_edge_offset_ms", .nat c.liveEdgeOffsetMillis.toNat),
    ("reconnect_delay_ms", .nat c.reconnectDelayMillis.toNat)]

end Config

end LivePlayback
