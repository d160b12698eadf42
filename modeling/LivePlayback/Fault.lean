import LivePlayback.Time

/-!
# Faults

What can go wrong in live playback: its wording, what caused it, whether trying again may help and
what to suggest. Only a lost connection carries a cause.
-/

namespace LivePlayback
set_option autoImplicit false

inductive IoKind where
  | notFound | isADirectory | invalidData | other
  deriving DecidableEq, Inhabited, Repr

/-- A failure of the file system, with the text it reported. -/
structure IoFault where
  kind : IoKind
  text : String
  deriving DecidableEq, Repr

namespace IoFault

def notFound : IoFault := ⟨.notFound, "No such file or directory (os error 2)"⟩

def isADirectory : IoFault := ⟨.isADirectory, "Is a directory (os error 21)"⟩

def notUtf8 : IoFault := ⟨.invalidData, "stream did not contain valid UTF-8"⟩

end IoFault

inductive Fault where
  | transport (reason : String)
  /-- A connection lost through a file system failure. -/
  | transportIo (reason : String) (cause : IoFault)
  | transportFrom (reason : String) (cause : Fault)
  | unsupportedCodec (codecs reason : String)
  | decode (context details : String)
  | append (reason : String)
  | config (reason : String)
  /-- The text is not a configuration document at all. -/
  | configDocument (details : String)
  | file (path : String) (cause : IoFault)
  | surfaceUnavailable (reason : String)
  /-- The session that held the surface died. -/
  | surfaceLost
  | timeout (limit : Duration)
  deriving DecidableEq, Inhabited, Repr

namespace Fault

inductive Kind where
  | transport | unsupportedCodec | decode | append | config | file | surfaceUnavailable | timeout
  deriving DecidableEq, Repr

def kind : Fault → Kind
  | transport _ | transportIo _ _ | transportFrom _ _ => .transport
  | unsupportedCodec _ _ => .unsupportedCodec
  | decode _ _ => .decode
  | append _ => .append
  | config _ | configDocument _ => .config
  | file _ _ => .file
  | surfaceUnavailable _ | surfaceLost => .surfaceUnavailable
  | timeout _ => .timeout

def message : Fault → String
  | transport reason | transportIo reason _ | transportFrom reason _ =>
    "Transport failure: " ++ reason
  | unsupportedCodec codecs reason => "Unsupported codec set \"" ++ codecs ++ "\": " ++ reason
  | decode context details => "Decode error in " ++ context ++ ": " ++ details
  | append reason => "Append rejected by sink: " ++ reason
  | config reason => "Invalid configuration: " ++ reason
  | configDocument details => "Invalid configuration: " ++ details
  | file path _ => "File error: " ++ path
  | surfaceUnavailable reason => "Output surface unavailable: " ++ reason
  | surfaceLost => "Output surface unavailable: supervisor task failed"
  | timeout limit => "Operation timed out after " ++ limit.text

/-- The wording of the fault and of each cause behind it. -/
def chain : Fault → List String
  | f@(transportIo _ cause) | f@(file _ cause) => [f.message, cause.text]
  | f@(transportFrom _ cause) => f.message :: cause.chain
  | f => [f.message]

/-- Only a new connection, or another codec announcement, can mend a fault by itself. -/
def retryable (f : Fault) : Bool :=
  match f.kind with
  | .transport | .timeout | .unsupportedCodec => true
  | _ => false

def suggestions (f : Fault) : List String :=
  match f.kind with
  | .transport =>
    ["Check that the stream endpoint is reachable", "Verify the stream URL",
      "Wait for the automatic reconnect"]
  | .unsupportedCodec =>
    ["Check which codecs the output surface can decode",
      "Ask the stream source for a different encoding preset"]
  | .decode =>
    ["Verify the stream server speaks the tagged frame protocol",
      "Check the server encodes codec and metadata payloads as UTF-8"]
  | .append =>
    ["Check the sink accepts fragmented MP4 segments", "Inspect the stream for corrupt segments"]
  | .config =>
    ["Check the configuration file syntax", "Use positive durations and capacities"]
  | .file => ["Check file exists and is readable", "Check file permissions"]
  | .surfaceUnavailable =>
    ["Bind a new output surface to the player", "Check the previous session shut down cleanly"]
  | .timeout => ["Increase timeout duration", "Check the transport is responsive"]

/-- A file system failure whose path nobody knows. -/
def ofIo (cause : IoFault) : Fault := .file "<unknown>" cause

end Fault

end LivePlayback
