import LivePlayback.Json.Value

/-!
# Lifecycle states

The states of a session and of an append queue, and the names under which they are exchanged.
-/

namespace LivePlayback.Json.Value
set_option autoImplicit false

/-- A named alternative with its payload: the bare name, or an object with one entry. -/
def alternative? : Value → Option (String × Value)
  | .string name => some (name, .null)
  | .object [(name, payload)] => some (name, payload)
  | _ => none

/-- The name of an alternative without payload. -/
def bareName? (v : Value) : Option String := do
  let (name, payload) ← v.alternative?
  if payload.isNull then some name else none

end LivePlayback.Json.Value

namespace LivePlayback
set_option autoImplicit false

open Json

inductive SessionState where
  | disconnected | connecting | opened | reconnectPending
  /-- Stopped, for ever. -/
  | destroyed
  deriving DecidableEq, Repr

namespace SessionState

def name : SessionState → String
  | .disconnected => "Disconnected"
  | .connecting => "Connecting"
  | .opened => "Open"
  | .reconnectPending => "ReconnectPending"
  | .destroyed => "Destroyed"

def all : List SessionState := [.disconnected, .connecting, .opened, .reconnectPending, .destroyed]

def ofName? (s : String) : Option SessionState := all.find? fun state => state.name == s

def ofValue? (v : Value) : Option SessionState := v.bareName?.bind ofName?

def terminal (s : SessionState) : Bool := s == .destroyed

end SessionState

inductive QueueState where
  | idle
  /-- The sink holds a chunk that it has not finished. -/
  | appending
  | destroyed
  deriving DecidableEq, Repr

namespace QueueState

def name : QueueState → String
  | .idle => "Idle"
  | .appending => "Appending"
  | .destroyed => "Destroyed"

def all : List QueueState := [.idle, .appending, .destroyed]

def ofName? (s : String) : Option QueueState := all.find? fun state => state.name == s

def ofValue? (v : Value) : Option QueueState := v.bareName?.bind ofName?

end QueueState

end LivePlayback
