import LivePlayback.Config
import LivePlayback.Frame
import LivePlayback.ReconnectTimer
import LivePlayback.Session.Journal

/-!
# The supervisor

One supervisor drives one session: it owns the transport, the surface and the append queue, and
handles one input after the other. The loss of a transport is never fatal; a stop is final.
-/

namespace LivePlayback
set_option autoImplicit false

/-- Where a supervisor waits. -/
inductive Phase where
  /-- It has not run yet. -/
  | spawned
  | connecting
  | waiting
  /-- For a transport to close, up to a deadline. -/
  | closing (deadline : Nat)
  | ended
  /-- A call of the surface broke down, and the session with it. -/
  | crashed
  deriving DecidableEq

structure Supervisor (σ : Type) where
  url : String
  config : Config
  /-- Whether the details of every frame are put on record. -/
  tracing : Bool
  surface : σ
  phase : Phase
  state : SessionState
  /-- The attempt that opened the transport. -/
  transport : Option Nat
  queue : Option AppendQueue
  /-- Of the newest announcement. -/
  generation : Nat
  timer : ReconnectTimer
  /-- Finished appends that were reported and not handled yet, oldest first. -/
  notices : List Notice
  stopRequested : Bool
  totals : Totals
  journal : Journal

namespace Supervisor

variable {σ : Type}

def spawn (url : String) (config : Config) (surface : σ) (tracing : Bool) : Supervisor σ where
  url
  config
  tracing
  surface
  phase := .spawned
  state := .disconnected
  transport := none
  queue := none
  generation := 0
  timer := .create config.reconnectDelay
  notices := []
  stopRequested := false
  totals := .zero
  journal := []

def note (s : Supervisor σ) (e : Entry) : Supervisor σ := { s with journal := e :: s.journal }

def emit (s : Supervisor σ) (e : Event) : Supervisor σ := s.note (.event e)

def isOver (s : Supervisor σ) : Bool := s.phase == .ended || s.phase == .crashed

/-- Nothing may be started any more. -/
def halted (s : Supervisor σ) : Bool := s.stopRequested || s.state.terminal

def setState (s : Supervisor σ) (state : SessionState) : Supervisor σ :=
  if s.state = state then s else { s with state }.note (.state state)

/-- A stop is asked for; asking again changes nothing. -/
def requestStop (s : Supervisor σ) : Supervisor σ := { s with stopRequested := true }

/-- A sink reports from outside; a session that is over does not hear it. -/
def notify (s : Supervisor σ) (n : Notice) : Supervisor σ :=
  let s := s.note (.notified n.generation)
  if s.isOver then s else { s with notices := s.notices ++ [n] }

/-- The side effects of a call. -/
def absorb (s : Supervisor σ) (a : Aftermath σ) : Supervisor σ :=
  { s with
    surface := a.surface
    notices := s.notices ++ a.notices
    stopRequested := s.stopRequested || a.stop
    journal := .ofNotices a.notices ++ s.journal }

/-- The sink of a generation, acting on the supervisor that calls it. -/
def sink (out : Surface σ) (generation : Nat) : Sink (Supervisor σ) where
  append s chunk :=
    let r := out.append s.surface generation chunk
    match r.answer with
    | some none => (.accepted, (s.note (.offered generation chunk true)).absorb r.toAftermath)
    | some (some why) =>
      (.refused why, (s.note (.offered generation chunk false)).absorb r.toAftermath)
    | none => (.crashed, s.absorb r.toAftermath)
  release s := (s.note (.released generation)).absorb (out.release s.surface generation)

def destroyQueue (out : Surface σ) (s : Supervisor σ) : Supervisor σ :=
  match s.queue with
  | none => s
  | some q =>
    match q.destroy (sink out q.generation) { s with queue := none } with
    | (_, s, some summary) => s.note (.queueEnded summary)
    | (_, s, none) => s

def dropTransport (s : Supervisor σ) : Supervisor σ :=
  match s.transport with
  | none => s
  | some attempt => { s with transport := none }.note (.transportDropped attempt)

/-- What is left is released; the state stays as it was. -/
def crash (out : Surface σ) (s : Supervisor σ) : Supervisor σ :=
  { s.dropTransport.destroyQueue out with phase := .crashed, timer := s.timer.cancel }

/-- Goes on with the answer of a call, if there is one. -/
def call {α : Type} (out : Surface σ) (s : Supervisor σ) (r : Reply σ α)
    (andThen : Supervisor σ → α → Supervisor σ) : Supervisor σ :=
  match r.answer with
  | some a => andThen (s.absorb r.toAftermath) a
  | none => (s.absorb r.toAftermath).crash out

/-- Takes over the queue that an operation leaves. -/
def keepQueue (out : Surface σ) (p : AppendQueue.Progress (Supervisor σ)) : Supervisor σ :=
  let s := { p.world with queue := some p.queue }
  if p.crashed then s.crash out else s

/-- The last thing a supervisor does. -/
def finish (out : Surface σ) (s : Supervisor σ) : Supervisor σ :=
  let s := { s with timer := s.timer.cancel }.destroyQueue out
  let s := if s.state.terminal then s else (s.setState .destroyed).emit .stopped
  { s with phase := .ended }.note (.ended s.totals)

/-- Releases everything; a transport is asked to close first. -/
def teardown (out : Surface σ) (now : Nat) (s : Supervisor σ) : Supervisor σ :=
  let s := { s with timer := s.timer.cancel }.destroyQueue out
  match s.transport with
  | none => s.finish out
  | some attempt =>
    { s with phase := .closing (s.config.closeTimeout.after now) }.note (.closing attempt)

/-- The transport closed, failed to, or ran out of time. -/
def endClosing (out : Surface σ) (s : Supervisor σ) : Supervisor σ := s.dropTransport.finish out

def connect (out : Surface σ) (now : Nat) (s : Supervisor σ) : Supervisor σ :=
  if s.halted then s.teardown out now
  else
    let s := s.setState .connecting
    let attempt := s.totals.connects + 1
    { s with phase := .connecting, totals := { s.totals with connects := attempt } }.note
      (.connecting attempt now)

/-- A connect under way is given up. -/
def abandonConnect (s : Supervisor σ) : Supervisor σ :=
  if s.phase = .connecting then s.note (.abandoned s.totals.connects) else s

def opened (s : Supervisor σ) : Supervisor σ :=
  let attempt := s.totals.connects
  let s := { s with phase := .waiting, transport := some attempt }.note (.opened attempt)
  (s.setState .opened).emit (.connected s.url)

/-- The transport is gone, or could not be opened. -/
def lose (out : Surface σ) (now : Nat) (why : Option Fault) (s : Supervisor σ) : Supervisor σ :=
  let s := s.dropTransport.destroyQueue out
  let s := s.emit (.disconnected (why.map Fault.message))
  if s.halted then s.finish out
  else
    let s := { s with phase := .waiting, timer := s.timer.arm now }.note
      (.armed now (s.timer.delay.alarm now))
    (s.setState .reconnectPending).emit (.reconnecting s.timer.delay)

def reportUnsupported (codecs : Codecs) (why : Fault) (s : Supervisor σ) : Supervisor σ :=
  s.emit (.codecUnsupported codecs why.message)

def unsupportedFault (codecs : Codecs) : Fault :=
  .unsupportedCodec codecs.text (codecs.mimeType ++ " unsupported")

/-- Gives up the sink, and asks the surface whether it has one for other codecs. -/
def announce (out : Surface σ) (codecs : Codecs) (s : Supervisor σ) : Supervisor σ :=
  let s := s.destroyQueue out
  { s with generation := s.generation + 1 }.note (.asked codecs.mimeType)

/-- Takes over a sink for the newest announcement. -/
def install (codecs : Codecs) (s : Supervisor σ) : Supervisor σ :=
  let s := { s with queue := some (.create codecs s.generation) }
  (s.note (.created s.generation codecs)).emit (.codecChanged codecs)

/-- Replaces the sink by one for other codecs, if the surface has one. -/
def installSink (out : Surface σ) (codecs : Codecs) (s : Supervisor σ) : Supervisor σ :=
  let s := s.announce out codecs
  s.call out (out.supports s.surface codecs.mimeType) fun s supported =>
    if !supported then s.reportUnsupported codecs (unsupportedFault codecs)
    else s.call out (out.createSink s.surface codecs s.generation) fun s refusal =>
      match refusal with
      | some why => s.reportUnsupported codecs why
      | none => s.install codecs

/-- A full record of the metadata needs the total of its observers. -/
def publishMetadata (out : Surface σ) (m : Metadata) (s : Supervisor σ) : Supervisor σ :=
  if s.tracing && m.observerTotal?.isNone then s.crash out
  else (s.note (.metadata m)).emit (.metadata m)

def handleChunk (out : Surface σ) (chunk : ByteArray) (s : Supervisor σ) : Supervisor σ :=
  match s.queue with
  | none => { s with totals := { s.totals with droppedChunks := s.totals.droppedChunks + 1 } }
  | some q =>
    let s := { s with totals := { s.totals with chunks := s.totals.chunks + 1 } }
    keepQueue out (q.enqueue (sink out q.generation) chunk s)

def liveEdge (config : Config) (bufferedEnd : Float) : Float :=
  let target := bufferedEnd - config.liveEdgeOffset.toSeconds
  if target > 0 then target else 0

/-- A hidden surface is moved to the live edge, so that it does not fall behind. -/
def catchUp (out : Surface σ) (s : Supervisor σ) : Supervisor σ :=
  if !s.config.catchUpLiveEdge then s
  else s.call out (out.hidden s.surface) fun s hidden =>
    if !hidden then s
    else s.call out (out.bufferedEnd s.surface) fun s bufferedEnd =>
      match bufferedEnd with
      | none => s
      | some bufferedEnd =>
        let target := liveEdge s.config bufferedEnd
        s.call out (out.seek s.surface target) fun s _ => s.note (.sought target)

def handleContent (out : Surface σ) (s : Supervisor σ) : Except Fault Content → Supervisor σ
  | .ok (.codecs codecs) => s.installSink out codecs
  | .ok (.metadata m) => s.publishMetadata out m
  | .ok (.media chunk) => s.handleChunk out chunk
  | .error _ =>
    { s with totals := { s.totals with malformedFrames := s.totals.malformedFrames + 1 } }

/-- Counts a frame and puts it on record. -/
def register (frame : ByteArray) (s : Supervisor σ) : Supervisor σ :=
  { s with totals := { s.totals with frames := s.totals.frames + 1 } }.note (.received frame)

def handleFrame (out : Surface σ) (frame : ByteArray) (s : Supervisor σ) : Supervisor σ :=
  if s.halted then s
  else
    let s := (s.register frame).handleContent out (Content.ofFrame frame)
    if s.phase = .crashed then s else s.catchUp out

/-- A notice counts while the queue has an append in flight. -/
def noteFinished (q : AppendQueue) (n : Notice) (s : Supervisor σ) : Supervisor σ :=
  if q.state = .appending then s.note (.finished n.generation n.rejection) else s

/-- Only the sink of the current queue counts. -/
def handleNotice (out : Surface σ) (n : Notice) (s : Supervisor σ) : Supervisor σ :=
  if s.halted then s
  else match s.queue with
    | none => s
    | some q =>
      if q.generation = n.generation then
        keepQueue out (q.finish (sink out q.generation) n.rejection (s.noteFinished q n))
      else s

end Supervisor

end LivePlayback
