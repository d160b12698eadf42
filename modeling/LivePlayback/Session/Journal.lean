import LivePlayback.Session.Event
import LivePlayback.Session.Surface

/-!
# Journals

All that a session does that others can notice, newest entry first. What listeners, readers of the
latest value and the log get to see is read off the journal.
-/

namespace LivePlayback
set_option autoImplicit false

/-- The counts of a whole session. -/
structure Totals where
  connects : Nat
  frames : Nat
  chunks : Nat
  droppedChunks : Nat
  malformedFrames : Nat
  deriving DecidableEq

def Totals.zero : Totals := ⟨0, 0, 0, 0, 0⟩

inductive Entry where
  | state (s : SessionState)
  | event (e : Event)
  /-- The latest metadata was replaced. -/
  | metadata (m : Metadata)
  /-- A connect was started; connects are numbered from one. -/
  | connecting (attempt now : Nat)
  | opened (attempt : Nat)
  | connectFailed (attempt : Nat)
  /-- A stop came while the attempt was under way. -/
  | abandoned (attempt : Nat)
  /-- A transport's close was called. -/
  | closing (attempt : Nat)
  | transportDropped (attempt : Nat)
  | received (frame : ByteArray)
  /-- The surface was asked whether it supports something. -/
  | asked (mimeType : String)
  | created (generation : Nat) (codecs : Codecs)
  | offered (generation : Nat) (chunk : ByteArray) (accepted : Bool)
  /-- A sink reported that it is done with a chunk. -/
  | notified (generation : Nat)
  /-- The append in flight was finished, or rejected late. -/
  | finished (generation : Nat) (rejection : Option String)
  | released (generation : Nat)
  | queueEnded (summary : QueueSummary)
  | sought (position : Float)
  /-- The reconnect timer was set, or went off. -/
  | armed (now deadline : Nat)
  | fired (now : Nat)
  | ended (totals : Totals)

abbrev Journal := List Entry

namespace Entry

def event? : Entry → Option Event
  | .event e => some e
  | _ => none

def metadata? : Entry → Option Metadata
  | .metadata m => some m
  | _ => none

def state? : Entry → Option SessionState
  | .state s => some s
  | _ => none

end Entry

namespace Journal

/-- What sinks report. -/
def ofNotices (notices : List Notice) : Journal :=
  (notices.map fun n => .notified n.generation).reverse

/-- The entries that answer a question, oldest first. -/
def select {α : Type} (j : Journal) (f : Entry → Option α) : List α := (j.filterMap f).reverse

def events (j : Journal) : List Event := j.select Entry.event?

/-- Everything that was the latest metadata once. -/
def metadata (j : Journal) : List Metadata := j.select Entry.metadata?

def states (j : Journal) : List SessionState := j.select Entry.state?

end Journal

end LivePlayback
