import LivePlayback.Session.CaptureHost
import LivePlayback.Session.Start
import LivePlayback.Text.Quoted
import LivePlayback.Text.Search

/-!
# The replay console

Plays a capture to a surface that counts and discards, and tells in lines what the session does.
The capture starts over after every reconnect until somebody interrupts it.
-/

namespace LivePlayback
set_option autoImplicit false

open Broadcast (Heard)

structure Tally where
  fragments : Nat
  bytes : Nat
  sinks : List (Nat × Codecs)

namespace Tally

def zero : Tally := ⟨0, 0, []⟩

/-- Everything is supported, and every chunk is done with at once. -/
def surface : Surface Tally where
  supports t _ := .plain true t
  createSink t codecs generation :=
    .plain none { t with sinks := (generation, codecs) :: t.sinks }
  append t generation chunk :=
    ⟨⟨{ t with fragments := t.fragments + 1, bytes := t.bytes + chunk.size },
      [⟨generation, none⟩], false⟩, some none⟩
  release t _ := ⟨t, [], false⟩
  hidden t := .plain false t
  bufferedEnd t := .plain none t
  seek t _ := .plain () t

end Tally

structure ConsoleLine where
  aboutSink : Bool
  text : String
  deriving DecidableEq, Repr

inductive StartFault where
  | usage
  | config (path : String) (why : Fault)
  | session (why : Fault)
  /-- There is no memory for the events of the session. -/
  | broken

namespace StartFault

/-- The causes of a fault; they are numbered if there are several. -/
def causes : List String → String
  | [] => ""
  | [cause] => "\n\nCaused by:\n    " ++ cause
  | several =>
    "\n\nCaused by:" ++ String.join (several.zipIdx.map fun (cause, i) => s!"\n    {i}: {cause}")

def message : StartFault → String
  | usage => "Error: usage: wsmp4f-replay <capture> [config.yaml]\n"
  | config path why => "Error: loading config " ++ path ++ causes why.chain ++ "\n"
  | session why => "Error: starting playback session" ++ causes why.chain ++ "\n"
  | broken => ""

/-- With what the console exits. -/
def code : StartFault → Nat
  | usage | config _ _ | session _ => 1
  | broken => 101

end StartFault

structure Console where
  now : Nat
  supervisor : Supervisor Tally
  host : CaptureHost
  position : Nat
  sinksTold : Nat

namespace Console

def info (text : String) : String := "INFO wsmp4f_replay: " ++ text

def warning (text : String) : String := "WARN wsmp4f_replay: " ++ text

def braced (name : String) (fields : List (String × String)) : String :=
  name ++ " \x7b " ++ ", ".intercalate (fields.map fun f => f.1 ++ ": " ++ f.2) ++ " \x7d"

def optional : Option String → String
  | none => "None"
  | some s => "Some(" ++ Text.quote s ++ ")"

def codecsText (c : Codecs) : String := "Codecs(" ++ Text.quote c.text ++ ")"

/-- The record of an event; none if the total of its observers leaves 64 bits. -/
def eventText? : Event → Option String
  | .connected url =>
    some ("Session event event=" ++ braced "Connected" [("url", Text.quote url)])
  | .codecChanged c => some ("Session event event=CodecChanged(" ++ codecsText c ++ ")")
  | .codecUnsupported c reason =>
    some ("Session event event=" ++
      braced "CodecUnsupported" [("codecs", codecsText c), ("reason", Text.quote reason)])
  | .metadata m =>
    m.observerTotal?.map fun total => s!"Metadata id={m.id} name={m.name} observers={total}"
  | .disconnected reason =>
    some ("Session event event=" ++ braced "Disconnected" [("reason", optional reason)])
  | .reconnecting delay =>
    some ("Session event event=" ++ braced "Reconnecting" [("delay", delay.text)])
  | .stopped => some "Session event event=Stopped"

def sinkLine (generation : Nat) (c : Codecs) : ConsoleLine :=
  ⟨true, info s!"Creating sink mime={c.mimeType} generation={generation}"⟩

inductive Ending where
  | goesOn
  | stopped
  | broken
  deriving DecidableEq

/-- Lines for what was heard, up to the end of the session. -/
def tell : List (Heard Event) → List ConsoleLine × Ending
  | [] => ([], .goesOn)
  | .missed n :: rest =>
    let (lines, ending) := tell rest
    (⟨false, warning s!"Event listener lagged skipped={n}"⟩ :: lines, ending)
  | .item .stopped :: _ => ([], .stopped)
  | .item e :: rest =>
    match eventText? e with
    | none => ([], .broken)
    | some text =>
      let (lines, ending) := tell rest
      (⟨false, info text⟩ :: lines, ending)

inductive Next where
  | again
  | sleep (wakeAt : Nat)
  | stopped
  | broken

def turns (c : Console) : Nat :=
  c.host.turns + 2 * c.supervisor.notices.length + 64

def sinkLines (c : Console) : List ConsoleLine :=
  let sinks := c.supervisor.surface.sinks
  ((sinks.take (sinks.length - c.sinksTold)).reverse).map fun (g, codecs) => sinkLine g codecs

/-- Lets the session go as far as it can and tells what it did. -/
def round (c : Console) : List ConsoleLine × Next × Console :=
  let d := c.supervisor.run Tally.surface CaptureHost.host c.now c.turns c.host
  let c := { c with supervisor := d.supervisor, host := d.host }
  let sinks := c.sinkLines
  let events := c.supervisor.journal.events
  let (lines, ending) :=
    tell (Broadcast.hear c.supervisor.config.eventCapacity.toNat events c.position)
  let c := { c with
    position := events.length
    sinksTold := c.supervisor.surface.sinks.length }
  let next := match ending, d.pause with
    | .broken, _ => .broken
    | .stopped, _ | _, .finished => .stopped
    | .goesOn, .blocked =>
      match c.supervisor.wakeAt with
      | some t => .sleep t
      | none => .again
    | .goesOn, _ => .again
  (sinks ++ lines, next, c)

def finish (c : Console) : ConsoleLine × Console :=
  let d := c.supervisor.requestStop.run Tally.surface CaptureHost.host c.now c.turns c.host
  let tally := d.supervisor.surface
  (⟨false, info s!"Replay finished fragments={tally.fragments} bytes={tally.bytes}"⟩,
    { c with supervisor := d.supervisor, host := d.host })

def interrupted : ConsoleLine := ⟨false, info "Interrupted"⟩

/-- A console about to play a capture. -/
def ready (capture : String) (content : Except IoFault ByteArray) (config : Config) :
    Except StartFault Console :=
  match Start.ofConfig ("file://" ++ capture) config .zero false with
  | .failed why => .error (.session why)
  | .broken => .error .broken
  | .running supervisor => .ok ⟨0, supervisor, .create ⟨capture, content⟩ none, 0, 0⟩

/-- Starts with a capture and the text of a configuration, if one is named. -/
def start (args : List String) (read : String → Except IoFault ByteArray) :
    Except StartFault Console :=
  match args with
  | [] => .error .usage
  | [capture] => ready capture (read capture) {}
  | capture :: path :: _ =>
    match Config.ofFile path (read path) with
    | .error why => .error (.config path why)
    | .ok config => ready capture (read capture) config

structure Transcript where
  code : Nat
  lines : List ConsoleLine
  complaint : String

/-- Whether a line says that the capture is about to start over. -/
def announcesReconnect (line : ConsoleLine) : Bool :=
  !line.aboutSink && Text.contains "Reconnecting \x7b".toList line.text.toList

/-- Runs until a reconnect is announced, and is interrupted then. -/
def play : Nat → Console → List ConsoleLine → Transcript
  | 0, _, told => ⟨0, told, ""⟩
  | rounds + 1, c, told =>
    let (lines, next, c) := c.round
    let told := told ++ lines
    if lines.any announcesReconnect then ⟨0, told ++ [interrupted, c.finish.1], ""⟩
    else match next with
      | .broken => ⟨101, told, ""⟩
      | .stopped => ⟨0, told ++ [c.finish.1], ""⟩
      | .again => play rounds c told
      | .sleep t => play rounds { c with now := t } told

/-- Enough rounds for one run of the capture: each of them reads or uses up an allowance. -/
def rounds (c : Console) : Nat := c.host.waits + c.turns / Supervisor.allowance + 8

def transcript (args : List String) (read : String → Except IoFault ByteArray) : Transcript :=
  match start args read with
  | .error fault => ⟨fault.code, [], fault.message⟩
  | .ok c => play c.rounds c []

end Console

end LivePlayback
