import LivePlayback.Rehearsal.Performance

/-!
# Reports

After each action the world settles, and then it is reported what can be seen.
-/

namespace LivePlayback.Rehearsal
set_option autoImplicit false

open Broadcast (Heard)

/-- What the log shows of a session. -/
inductive LogRecord where
  | queue (summary : QueueSummary)
  | supervisor (totals : Totals)

def logRecord? : Entry → Option LogRecord
  | .queueEnded summary => some (.queue summary)
  | .ended totals => some (.supervisor totals)
  | _ => none

structure Report where
  now : Nat
  state : Option SessionState
  outcome : Outcome
  events : List (Heard Event)
  surface : List SurfaceEvent
  /-- By the number of the reader. -/
  sights : List (Nat × SightRecord)
  log : List LogRecord

namespace World

def logOf (seat : Seat) : List LogRecord :=
  let journal := seat.supervisor.journal
  Journal.select (journal.take (journal.length - seat.logged)) logRecord?

def sightsOf (readers : List Reader) : List (Nat × SightRecord) :=
  (readers.zipIdx.map fun (r, i) => r.records.reverse.map fun record => (i, record)).flatten

def report (w : World) (outcome : Outcome) : Report :=
  { now := w.now
    state := w.currentSeat?.map fun seat => seat.supervisor.state
    outcome
    events := w.heard
    surface := w.stage.shown.reverse
    sights := sightsOf w.readers
    log := (w.seats.map logOf).flatten }

/-- Forgets what has been reported. -/
def afterReport (w : World) : World :=
  { w with
    heard := []
    stage := { w.stage with shown := [] }
    readers := w.readers.map fun r => { r with records := [] }
    seats := w.seats.map fun seat =>
      { seat with logged := seat.supervisor.journal.length } }

def step (w : World) (a : Action) : Report × World :=
  let (outcome, w) := w.take a
  let w := w.stir.settle.collect
  (w.report outcome, w.afterReport)

/-- The reports of all steps, unless something broke outside of the sessions. -/
def perform (w : World) : List Action → Option (List Report)
  | [] => some []
  | a :: rest =>
    let (r, w) := w.step a
    if w.broken then none else (perform w rest).map (r :: ·)

end World

end LivePlayback.Rehearsal
