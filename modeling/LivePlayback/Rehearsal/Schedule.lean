import LivePlayback.Time

/-!
# Schedules

Who runs next when one task runs at a time. Tasks that can go on stand in a queue, and nobody stands
in it twice; a task that made way, or that waits for a file, stands aside until the queue is empty.
Alarms that are due together ring in the order in which they were set.
-/

namespace LivePlayback.Rehearsal
set_option autoImplicit false

/-- Who runs: a session, or a reader, by its number. -/
inductive Task where
  | session (k : Nat)
  | reader (i : Nat)
  deriving DecidableEq

structure Alarm where
  task : Task
  due : Nat

structure Schedule where
  /-- Who can go on, in this order. -/
  queue : List Task
  /-- Who made way for others. -/
  yielded : List Task
  /-- Who waits for a file. -/
  busy : List Task
  /-- In the order in which they were set, one for each task at most. -/
  alarms : List Alarm

namespace Schedule

def empty : Schedule := ⟨[], [], [], []⟩

/-- A task that stands in the queue keeps its place. -/
def wake (s : Schedule) (t : Task) : Schedule :=
  if t ∈ s.queue then s else { s with queue := s.queue ++ [t] }

/-- Takes the first of the queue, wherever else it may stand. -/
def next? (s : Schedule) : Option (Task × Schedule) :=
  match s.queue with
  | [] => none
  | t :: rest => some (t, { s with
      queue := rest, yielded := s.yielded.erase t, busy := s.busy.erase t })

/-- Those that made way stand in the queue again. -/
def resume (s : Schedule) : Schedule := { s.yielded.foldl wake s with yielded := [] }

/-- What was waited for has been read. -/
def collect (s : Schedule) : Schedule := { s.busy.foldl wake s with busy := [] }

/-- A task has at most one alarm; setting it for the same time again changes nothing. -/
def setAlarm (s : Schedule) (t : Task) (due : Option Nat) : Schedule :=
  match due with
  | none => { s with alarms := s.alarms.filter fun a => a.task ≠ t }
  | some due =>
    if s.alarms.any fun a => a.task = t ∧ a.due = due then s
    else { s with alarms := (s.alarms.filter fun a => a.task ≠ t) ++ [⟨t, due⟩] }

/-- The next alarm, at a whole millisecond. -/
def nextAlarm? (s : Schedule) : Option Nat :=
  (s.alarms.map fun a => Instant.ceilMilli a.due).min?

/-- Wakes everybody whose alarm is due. -/
def ring (s : Schedule) (now : Nat) : Schedule :=
  let due := s.alarms.filter fun a => a.due ≤ now
  { due.foldl (fun s a => s.wake a.task) s with
    alarms := s.alarms.filter fun a => now < a.due }

end Schedule

end LivePlayback.Rehearsal
