import LivePlayback.Session.Surface
import LivePlayback.Text.Search

/-!
# Rehearsal surfaces

A recording surface keeps all that happens to it and finishes appends only when it is told to. A
minimal one supports everything, is never hidden and finishes every append at once.
-/

namespace LivePlayback.Rehearsal
set_option autoImplicit false

inductive SurfaceEvent where
  | sink (generation : Nat) (codecs : Codecs)
  | append (generation : Nat) (chunk : ByteArray)
  | release (generation : Nat)
  | seek (position : Float)

/-- During which call the session is to be stopped. -/
inductive Hook where
  | never | connect | frame | close | append | create
  deriving DecidableEq

structure Stage where
  minimal : Bool
  /-- What happened since the last report, newest first. -/
  shown : List SurfaceEvent
  /-- All that a recording surface has seen, newest first. -/
  recorded : List SurfaceEvent
  /-- The session whose sink has a generation; a later session replaces an earlier one. -/
  owners : List (Nat × Nat)
  owner : Nat
  /-- Generations whose sink holds a chunk. -/
  inFlight : List Nat
  overlaps : Nat
  unsupported : List String
  refusing : Bool
  hidden : Bool
  bufferedEnd : Option Float
  /-- Accepted appends are finished at once. -/
  completing : Bool
  createFault : Option Fault
  createBreaks : Bool
  hook : Hook
  /-- Whether the hook reaches the session that holds the surface. -/
  hookable : Bool

namespace Stage

def create (minimal : Bool) : Stage :=
  ⟨minimal, [], [], [], 0, [], 0, [], false, false, none, false, none, false, .never, false⟩

def reveal (s : Stage) (e : SurfaceEvent) : Stage := { s with shown := e :: s.shown }

def record (s : Stage) (e : SurfaceEvent) : Stage :=
  { s.reveal e with recorded := e :: s.recorded }

def stops (s : Stage) (hook : Hook) : Bool := s.hookable && s.hook == hook

def supports (s : Stage) (mimeType : String) : Bool :=
  s.minimal || !s.unsupported.any fun codec => Text.contains codec.toList mimeType.toList

def setOwner (generation owner : Nat) (owners : List (Nat × Nat)) : List (Nat × Nat) :=
  (generation, owner) :: owners.filter fun o => o.1 != generation

def createSink (s : Stage) (codecs : Codecs) (generation : Nat) : Reply Stage (Option Fault) :=
  if s.minimal then .plain none (s.reveal (.sink generation codecs))
  else
    if s.createBreaks then ⟨⟨s, [], false⟩, none⟩
    else match s.createFault with
      | some why => .plain (some why) s
      | none =>
        let s := { s with owners := setOwner generation s.owner s.owners }
        ⟨⟨s.record (.sink generation codecs), [], s.stops .create⟩, some none⟩

def refusal : Fault := .append "sink refusing appends"

def append (s : Stage) (generation : Nat) (chunk : ByteArray) : Reply Stage (Option Fault) :=
  if s.minimal then
    ⟨⟨s.reveal (.append generation chunk), [⟨generation, none⟩], false⟩, some none⟩
  else if s.refusing then .plain (some refusal) s
  else
    let overlapping := s.inFlight.contains generation
    let s := { s with
      overlaps := if overlapping then s.overlaps + 1 else s.overlaps
      inFlight := if overlapping then s.inFlight else generation :: s.inFlight }
    let s := s.record (.append generation chunk)
    if s.completing then
      ⟨⟨{ s with inFlight := s.inFlight.erase generation }, [⟨generation, none⟩],
        s.stops .append⟩, some none⟩
    else ⟨⟨s, [], s.stops .append⟩, some none⟩

def release (s : Stage) (generation : Nat) : Stage :=
  if s.minimal then s
  else { s with inFlight := s.inFlight.erase generation }.record (.release generation)

def surface : Surface Stage where
  supports s mimeType := .plain (s.supports mimeType) s
  createSink := createSink
  append := append
  release s generation := ⟨s.release generation, [], false⟩
  hidden s := .plain (!s.minimal && s.hidden) s
  bufferedEnd s := .plain s.bufferedEnd s
  seek s position := .plain () (s.record (.seek position))

def ownerOf? (s : Stage) (generation : Nat) : Option Nat :=
  (s.owners.find? fun o => o.1 == generation).map Prod.snd

/-- Ends the append in flight; false if there is none. -/
def finish (s : Stage) (generation : Nat) : Bool × Stage :=
  if s.inFlight.contains generation then
    (true, { s with inFlight := s.inFlight.erase generation })
  else (false, s)

structure Probe where
  /-- The chunks that the sink of one generation accepted. -/
  appended : List ByteArray
  allAppended : Nat
  sinks : List (Nat × Codecs)
  released : List Nat
  seeks : List Float
  overlaps : Nat
  inFlight : Bool

def select {α : Type} (s : Stage) (f : SurfaceEvent → Option α) : List α :=
  (s.recorded.filterMap f).reverse

def appends (s : Stage) : Nat :=
  (s.select fun | .append g _ => some g | _ => none).length

def probe (s : Stage) (generation : Nat) : Probe where
  appended := s.select fun
    | .append g chunk => if g = generation then some chunk else none
    | _ => none
  allAppended := s.appends
  sinks := s.select fun | .sink g codecs => some (g, codecs) | _ => none
  released := s.select fun | .release g => some g | _ => none
  seeks := s.select fun | .seek position => some position | _ => none
  overlaps := s.overlaps
  inFlight := s.inFlight.contains generation

end Stage

end LivePlayback.Rehearsal
