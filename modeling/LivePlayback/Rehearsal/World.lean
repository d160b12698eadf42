import LivePlayback.Player
import LivePlayback.Rehearsal.Desk
import LivePlayback.Rehearsal.Reader
import LivePlayback.Rehearsal.Schedule
import LivePlayback.Session.Start

/-!
# The world of a rehearsal

All sessions, what they share, and who listens to them. One task runs at a time, in the order of the
schedule: a session goes as far as it can and has its readers look after it. The clock moves only
when nothing can run.
-/

namespace LivePlayback.Rehearsal
set_option autoImplicit false

open Broadcast (Heard)

/-- A session and its own side of the desk. -/
structure Seat where
  supervisor : Supervisor Stage
  attempt : Option Attempt
  link : Option Link
  capture : Option CaptureHost
  /-- Somebody holds the session's handle. -/
  held : Bool
  /-- How much of the journal the log has shown. -/
  logged : Nat

structure Ear where
  seat : Nat
  position : Nat

inductive Whereabouts where
  | free
  | inUse
  | lost
  deriving DecidableEq

structure World where
  now : Nat
  schedule : Schedule
  config : Config
  /-- Sessions replay this capture instead of using the exchange. -/
  capture : Option CaptureHost
  stage : Stage
  desk : Desk
  seats : List Seat
  session : Option Nat
  player : Option (Player Unit Nat)
  surface : Whereabouts
  readers : List Reader
  ears : List Ear
  mainEar : Option Ear
  heard : List (Heard Event)
  lastAccepted : Option Nat
  /-- Something broke outside of every session. -/
  broken : Bool

namespace World

def create (config : Config) (minimal : Bool) (capture : Option CaptureHost) : World where
  now := 0
  schedule := .empty
  config
  capture
  stage := .create minimal
  desk := ⟨.create, .ofMillis 0, .normal, .never⟩
  seats := []
  session := none
  player := none
  surface := .free
  readers := []
  ears := []
  mainEar := none
  heard := []
  lastAccepted := none
  broken := false

/-- The session that steps act on. -/
def current (w : World) : Option Nat := w.session.or (w.player.bind Player.session)

def seat? (w : World) (k : Nat) : Option Seat := w.seats[k]?

def currentSeat? (w : World) : Option Seat := w.current.bind w.seat?

def modifySeat (w : World) (k : Nat) (f : Seat → Seat) : World :=
  { w with seats := w.seats.modify k f }

def modifySupervisor (w : World) (k : Nat) (f : Supervisor Stage → Supervisor Stage) : World :=
  w.modifySeat k fun seat => { seat with supervisor := f seat.supervisor }

def requestStop (w : World) (k : Nat) : World := w.modifySupervisor k Supervisor.requestStop

/-- A session without a handle stops. -/
def dropHandle (w : World) (k : Nat) : World :=
  (w.requestStop k).modifySeat k fun seat => { seat with held := false }

def heardBy (w : World) (ear : Ear) : List (Heard Event) × Ear :=
  match w.seat? ear.seat with
  | none => ([], ear)
  | some seat =>
    let events := seat.supervisor.journal.events
    (Broadcast.hear seat.supervisor.config.eventCapacity.toNat events ear.position,
      { ear with position := events.length })

def listenTo (w : World) (k : Nat) : Ear :=
  (w.heardBy ⟨k, 0⟩).2

def collect (w : World) : World :=
  match w.mainEar with
  | none => w
  | some ear =>
    let (heard, ear) := w.heardBy ear
    { w with heard := w.heard ++ heard, mainEar := some ear }

/-- Seats a new session, to which the main ear turns. -/
def seat (w : World) (s : Supervisor Stage) : Nat × World :=
  let k := w.seats.length
  let w := w.collect
  (k, { w with
    seats := w.seats ++ [⟨s, none, none, w.capture, true, 0⟩]
    surface := .inUse
    stage := { w.stage with owner := k }
    mainEar := some ⟨k, 0⟩ })

def counter (w : World) (k : Nat) (seat : Seat) : Counter :=
  ⟨w.desk, w.session == some k, seat.attempt, seat.link, seat.capture⟩

/-- A session has something to handle. -/
def stirs (w : World) (k : Nat) (seat : Seat) : Bool :=
  match seat.supervisor.turn w.now with
  | .take _ => true
  | .ask .frame => seat.capture.isNone && (w.counter k seat).delivers
  | _ => false

def wake (w : World) (t : Task) : World := { w with schedule := w.schedule.wake t }

def stir (w : World) : World :=
  w.seats.zipIdx.foldl (fun w (seat, k) => if w.stirs k seat then w.wake (.session k) else w) w

/-- How many turns a session may take before it has to wait. -/
def turns (c : Counter) (s : Supervisor Stage) : Nat :=
  c.turns + 2 * (s.notices.length + (s.queue.map fun q => q.pending.length).getD 0)

def runSeat (w : World) (k : Nat) (seat : Seat) : Supervisor.Pause × World :=
  let counter := w.counter k seat
  let stage := { w.stage with hook := w.desk.hook, hookable := counter.hookable }
  let supervisor := { seat.supervisor with surface := stage }
  let d := supervisor.run Stage.surface Counter.host w.now (turns counter supervisor) counter
  (d.pause,
    { w.modifySeat k (fun seat => { seat with
        supervisor := d.supervisor
        attempt := d.host.attempt
        link := d.host.link
        capture := d.host.capture }) with
      desk := d.host.desk
      stage := d.supervisor.surface })

def seatWakeAt (w : World) (k : Nat) (seat : Seat) : Option Nat :=
  if seat.supervisor.isOver then none
  else
    let fromHost := if seat.supervisor.turn w.now matches .ask .connect | .ask .frame
      then (w.counter k seat).wakeAt w.now else none
    minOption seat.supervisor.wakeAt fromHost
where
  minOption : Option Nat → Option Nat → Option Nat
    | some a, some b => some (min a b)
    | a, none => a
    | none, b => b

/-- Runs a session, sets its alarm and wakes its readers. -/
def runSession (w : World) (k : Nat) : World :=
  match w.seat? k with
  | none => w
  | some seat =>
    let (pause, w) := w.runSeat k seat
    let t := Task.session k
    let schedule := w.schedule.setAlarm t ((w.seat? k).bind (w.seatWakeAt k))
    let schedule := match pause with
      | .yielded => { schedule with yielded := schedule.yielded ++ [t] }
      | .busy => { schedule with busy := schedule.busy ++ [t] }
      | _ => schedule
    let schedule := w.readers.zipIdx.foldl (fun schedule (r, i) =>
      if r.seat = k then schedule.wake (.reader i) else schedule) schedule
    { w with schedule }

def runReader (w : World) (i : Nat) : World :=
  match w.readers[i]? with
  | none => w
  | some r =>
    match w.seat? r.seat with
    | none => w
    | some seat =>
      let r := r.run w.now seat.supervisor
      { w with
        readers := w.readers.set i r
        schedule := w.schedule.setAlarm (.reader i) r.wakeAt }

def runTask (w : World) : Task → World
  | .session k => w.runSession k
  | .reader i => w.runReader i

/-- Runs tasks until the queue is empty: every session once at most, and every reader before and
after its session at most. -/
def runQueue (w : World) : World := go (2 * (w.seats.length + w.readers.length)) w
where
  go : Nat → World → World
    | 0, w => w
    | tasks + 1, w =>
      match w.schedule.next? with
      | none => w
      | some (t, schedule) => go tasks ({ w with schedule }.runTask t)

def moveTo (w : World) (t : Nat) : World :=
  let now := max w.now t
  { w with now, schedule := w.schedule.ring now }

/-- Runs all that can run, and lets those go on that made way; whether there are any. -/
def round (w : World) : Bool × World :=
  let w := w.runQueue
  let schedule := w.schedule.resume
  (!schedule.queue.isEmpty, { w with schedule })

/-- Lets those go on that wait for a file, if there are any. -/
def readFiles? (w : World) : Option World :=
  if w.schedule.busy.isEmpty then none else some { w with schedule := w.schedule.collect }

inductive Wait where
  | held
  | expired
  deriving DecidableEq

/-- Runs the world until a condition holds or a limit is reached. What is due at the limit itself
comes too late. -/
def runUntil (holds : World → Bool) (limit : Option Nat) : Nat → World → Wait × World
  | 0, w => (.expired, w)
  | rounds + 1, w =>
    let (again, w) := w.round
    if holds w then (.held, w)
    else if again then runUntil holds limit rounds w
    else match w.readFiles? with
    | some w => runUntil holds limit rounds w
    | none =>
      match w.schedule.nextAlarm?, limit with
      | some due, some limit =>
        if due < limit then runUntil holds (some limit) rounds (w.moveTo due)
        else (.expired, w.moveTo limit)
      | some due, none => runUntil holds none rounds (w.moveTo due)
      | none, some limit => (.expired, w.moveTo limit)
      | none, none => (.expired, w)

/-- How often sessions may make way, or wait for a file, at one instant. -/
def pauses (w : World) : Nat :=
  w.seats.zipIdx.foldl (fun n (seat, k) => n + turns (w.counter k seat) seat.supervisor)
    ((w.capture.map CaptureHost.waits).getD 0 + 8)

/-- Enough rounds for a stretch of time: after each of them something pauses or the clock moves. -/
def rounds (w : World) (stretch : Nat) : Nat := (stretch / nanosPerMilli + 2) * (w.pauses + 8)

/-- Waits for a condition, which may hold already. -/
def waitFor (w : World) (holds : World → Bool) (limit : Duration) : Bool × World :=
  if holds w then (true, w)
  else if limit.nanos = 0 then (false, w)
  else
    let (wait, w) := runUntil holds (some (limit.after w.now)) (w.rounds limit.nanos) w
    (wait == .held, w)

def advance (w : World) (limit : Duration) : World :=
  if limit.nanos = 0 then w
  else (runUntil (fun _ => false) (some (limit.alarm w.now)) (w.rounds limit.nanos) w).2

def settle (w : World) : World := go w.pauses w
where
  go : Nat → World → World
    | 0, w => w
    | rounds + 1, w =>
      let (again, w) := w.round
      if again then go rounds w
      else match w.readFiles? with
      | some w => go rounds w
      | none => w

def isOver (w : World) (k : Nat) : Bool := (w.seat? k).all fun seat => seat.supervisor.isOver

/-- Stops a session and waits for its end; whether it gave the surface back. -/
def shutDown (w : World) (k : Nat) : Bool × World :=
  let w := (w.requestStop k).stir
  let limit := w.config.closeTimeout.nanos
  let w := if w.isOver k then w
    else (runUntil (fun w => w.isOver k) none (w.rounds limit + w.pauses) w).2
  let returned := (w.seat? k).any fun seat => seat.supervisor.phase == .ended
  (returned, w.modifySeat k fun seat => { seat with held := false })

end World

end LivePlayback.Rehearsal
