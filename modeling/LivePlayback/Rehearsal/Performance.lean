import LivePlayback.Rehearsal.Action
import LivePlayback.Rehearsal.World

/-!
# Performing actions

How an action changes the world. Actions of a batch follow each other at once, while nothing else
runs.
-/

namespace LivePlayback.Rehearsal
set_option autoImplicit false

namespace World

def ofFlag? : Option Bool → Outcome
  | some b => .flag b
  | none => .nothing

/-- What the start of a session comes to. -/
def seated (w : World) (s : Start Stage) (andThen : Nat → World → Outcome × World) :
    Outcome × World :=
  match s with
  | .failed why => (.failed why, { w with surface := .lost })
  | .broken => (.nothing, { w with broken := true })
  | .running s =>
    let (k, w) := w.seat s
    andThen k w

/-- Starts a session with the surface, which is lost if that fails. -/
def start (w : World) (url : String) : Outcome × World :=
  if w.surface ≠ .free then (.noSurface, w)
  else w.seated (.ofConfig url w.config w.stage true) fun k w =>
    (.text url, { w with session := some k })

def shutDownSession (w : World) : Outcome × World :=
  match w.session with
  | none => (.nothing, w)
  | some k =>
    let (returned, w) := w.shutDown k
    if returned then (.flag true, { w with session := none, surface := .free })
    else (.failed .surfaceLost, { w with session := none, surface := .lost })

def dropSession (w : World) : Outcome × World :=
  match w.session with
  | none => (.flag false, w)
  | some k => (.flag true, { w.dropHandle k with session := none, surface := .lost })

def createPlayer (w : World) : Outcome × World :=
  if w.surface ≠ .free then (.noSurface, w)
  else match Player.create w.config () with
    | .error why => (.failed why, { w with surface := .lost })
    | .ok p => (.flag true, { w with player := some p, surface := .inUse })

/-- Stops what the player plays; what comes back of the surface. -/
def haltPlayer (w : World) (p : Player Unit Nat) : Option Unit × World :=
  match p.session with
  | none => (none, w)
  | some k =>
    let (returned, w) := w.shutDown k
    (if returned then some () else none, w)

def load (w : World) (url : String) : Outcome × World :=
  match w.player with
  | none => (.nothing, w)
  | some p =>
    let (returned, w) := w.haltPlayer p
    match p.relend returned with
    | (.error why, p) => (.failed why, { w with player := some p })
    | (.ok (), p) =>
      w.seated (.launch url p.config w.stage true) fun k w =>
        (.text url, { w with player := some (p.play k) })

def stopPlayer (w : World) : Outcome × World :=
  match w.player with
  | none => (.nothing, w)
  | some p =>
    let (returned, w) := w.haltPlayer p
    match p.reclaim returned with
    | (.error why, p) => (.failed why, { w with player := some p })
    | (.ok (), p) => (.playerIdle, { w with player := some p })

def dropPlayer (w : World) : Outcome × World :=
  match w.player with
  | none => (.flag false, w)
  | some p =>
    let w := match p.session with
      | some k => w.dropHandle k
      | none => w
    (.flag true, { w with player := none, surface := .lost })

def withExchange {α : Type} (w : World) (f : Exchange → α × Exchange) : α × World :=
  let (a, exchange) := f w.desk.exchange
  (a, { w with desk := { w.desk with exchange } })

def accept (w : World) : Outcome × World :=
  if w.desk.exchange.listening then
    let (a, w) := w.withExchange Exchange.accept
    let w := match a with
      | .line i _ => { w with lastAccepted := some i }
      | _ => w
    (.accepted a, w)
  else (.nothing, w)

/-- The line that a step is about. -/
def conn (w : World) (conn : Option Nat) : Nat := conn.getD (w.lastAccepted.getD 0)

def feed? (w : World) (conn : Option Nat) : Option Line := w.desk.exchange.feed? (w.conn conn)

def send (w : World) (conn : Option Nat) (item : FeedItem) : Outcome × World :=
  let (sent, w) := w.withExchange fun e => e.send (w.conn conn) item
  (ofFlag? sent, w)

def waitClosed (w : World) (conn : Option Nat) (limit : Duration) : Outcome × World :=
  match w.feed? conn with
  | none => (.nothing, w)
  | some _ =>
    let i := w.conn conn
    let (held, w) := w.waitFor
      (fun w => (w.desk.exchange.lines[i]?).any Line.isClosed) limit
    (.flag held, w)

def dropFeed (w : World) (conn : Option Nat) : Outcome × World :=
  match w.feed? conn with
  | none => (.flag false, w)
  | some _ =>
    let i := w.conn conn
    (.flag true, (w.withExchange fun e => ((), e.modify i Line.dropFeed)).2)

def refuse (w : World) (on : Bool) : Outcome × World :=
  w.withExchange fun e => (.flag e.listening, if e.listening then { e with refusing := on } else e)

/-- Tells the session whose sink it is that an append is done. -/
def notify (w : World) (generation : Nat) (rejection : Option String) : World :=
  match w.stage.ownerOf? generation with
  | none => w
  | some k => w.modifySupervisor k (Supervisor.notify · ⟨generation, rejection⟩)

def finish (w : World) (generation : Nat) (rejection : Option String) : Outcome × World :=
  let (found, stage) := w.stage.finish generation
  let w := { w with stage }
  (.flag found, if found then w.notify generation rejection else w)

def onStage (w : World) (f : Stage → Stage) : Outcome × World :=
  (.nothing, { w with stage := f w.stage })

/-- A step that needs a session. -/
def withCurrent (w : World) (f : Nat → Seat → Outcome × World) : Outcome × World :=
  match w.current, w.currentSeat? with
  | some k, some seat => f k seat
  | _, _ => (.nothing, w)

/-- The state is reached, or no other state can be. -/
def reached (state : SessionState) (k : Nat) (w : World) : Bool :=
  (w.seat? k).any fun seat => seat.supervisor.state == state || seat.supervisor.isOver

def reconnects (k : Nat) (w : World) : Nat :=
  ((w.seat? k).map fun seat => seat.supervisor.journal.events.countP fun e =>
    match e with | .reconnecting _ => true | _ => false).getD 0

def watch (w : World) (r : Reader) : Outcome × World :=
  (.index w.readers.length, { w with readers := w.readers ++ [r] }.wake (.reader w.readers.length))

def watchMetadata (w : World) (k : Nat) (rate : Option UpdateRate) : Outcome × World :=
  match rate with
  | none => (.badRate, w)
  | some rate =>
    match Updates.ofRate? rate w.now with
    | none => (.nothing, { w with broken := true })
    | some updates => w.watch (.create k .metadata updates)

def subscribe (w : World) (k : Nat) : Outcome × World :=
  (.index w.ears.length, { w with ears := w.ears ++ [w.listenTo k] })

/-- Nobody can send to this listener any more. -/
def silent (w : World) (ear : Ear) : Bool :=
  (w.seat? ear.seat).all fun seat => seat.supervisor.isOver && !seat.held

def drain (w : World) (i : Nat) : Outcome × World :=
  match w.ears[i]? with
  | none => (.nothing, w)
  | some ear =>
    let (heard, ear) := w.heardBy ear
    (.drained heard (w.silent ear), { w with ears := w.ears.set i ear })

def flagged (r : Bool × World) : Outcome × World := (.flag r.1, r.2)

mutual

def take (w : World) : Action → Outcome × World
  | .start url => w.start url
  | .stop => w.withCurrent fun k _ => (.flag true, w.requestStop k)
  | .isStopped => w.withCurrent fun _ seat => (.flag seat.supervisor.stopRequested, w)
  | .shutDown => w.shutDownSession
  | .dropSession => w.dropSession
  | .player => w.createPlayer
  | .load url => w.load url
  | .stopPlayer => w.stopPlayer
  | .dropPlayer => w.dropPlayer
  | .accept => w.accept
  | .send conn item => w.send conn item
  | .isClosed conn => (ofFlag? ((w.feed? conn).map Line.isClosed), w)
  | .waitClosed conn limit => w.waitClosed conn limit
  | .dropFeed conn => w.dropFeed conn
  | .stopListening =>
    w.withExchange fun e => (.flag e.listening, e.stopListening)
  | .refuse on => w.refuse on
  | .connectMode manner delay => (.nothing, { w with desk := { w.desk with manner, delay } })
  | .stopOn hook => (.nothing, { w with desk := { w.desk with hook } })
  | .finish generation rejection => w.finish generation rejection
  | .completeLate generation => (.nothing, w.notify generation none)
  | .unsupported codec => w.onStage fun s => { s with unsupported := s.unsupported ++ [codec] }
  | .refuseAppends on => w.onStage fun s => { s with refusing := on }
  | .hidden on bufferedEnd => w.onStage fun s => { s with hidden := on, bufferedEnd }
  | .completeAtOnce on => w.onStage fun s => { s with completing := on }
  | .failCreate why => w.onStage fun s => { s with createFault := why }
  | .breakCreate on => w.onStage fun s => { s with createBreaks := on }
  | .probe generation => (.probe (w.stage.probe generation), w)
  | .advance limit => (.nothing, w.advance limit)
  | .waitState state limit => w.withCurrent fun k _ =>
    flagged (w.waitFor (reached state k) limit)
  | .waitAppends count limit => flagged (w.waitFor (fun w => count ≤ w.stage.appends) limit)
  | .waitReconnecting limit => w.withCurrent fun k _ =>
    let before := reconnects k w
    flagged (w.waitFor (fun w => before < reconnects k w) limit)
  | .metadata => w.withCurrent fun _ seat =>
    match seat.supervisor.journal.metadata.getLast? with
    | some m => (.metadata m, w)
    | none => (.nothing, w)
  | .subscribe => w.withCurrent fun k _ => w.subscribe k
  | .drain i => w.drain i
  | .watchMetadata rate => w.withCurrent fun k _ => w.watchMetadata k rate
  | .watchState => w.withCurrent fun k _ => w.watch (.create k .state .unlimited)
  | .batch actions =>
    let (outcomes, w) := takeAll w actions
    (.all outcomes, w)
  | .unknown => (.unknown, w)

def takeAll (w : World) : List Action → List Outcome × World
  | [] => ([], w)
  | a :: rest =>
    let (outcome, w) := w.take a
    let (outcomes, w) := takeAll w.stir rest
    (outcome :: outcomes, w)

end

end World

end LivePlayback.Rehearsal
