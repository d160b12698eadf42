import LivePlayback.Rehearsal.Stage
import LivePlayback.Session.Supervisor
import LivePlayback.Session.Updates

/-!
# Readers

A reader notes the metadata or the states of a session as it meets them, with their times, and at
last the end.
-/

namespace LivePlayback.Rehearsal
set_option autoImplicit false

inductive Followed where
  | metadata
  | state

inductive Sight where
  | metadata (m : Metadata)
  | state (s : SessionState)
  | finished

structure SightRecord where
  now : Nat
  sight : Sight

structure Reader where
  seat : Nat
  followed : Followed
  updates : Updates Sight
  finished : Bool
  /-- Newest first. -/
  records : List SightRecord

namespace Reader

def create (seat : Nat) (followed : Followed) (updates : Updates Sight) : Reader :=
  ⟨seat, followed, updates, false, []⟩

/-- Everything that was the latest value once, oldest first. -/
def published (followed : Followed) (s : Supervisor Stage) : List Sight :=
  match followed with
  | .metadata => s.journal.metadata.map .metadata
  | .state => (SessionState.disconnected :: s.journal.states).map .state

def note (r : Reader) (now : Nat) (sight : Sight) : Reader :=
  { r with records := ⟨now, sight⟩ :: r.records }

/-- Takes what there is; a held value, a fresh one and the end at most. -/
def takeAll (now : Nat) (values : List Sight) (isOver : Bool) : Nat → Reader → Reader
  | 0, r => r
  | rounds + 1, r =>
    let (answer, updates) := r.updates.poll now values isOver
    let r := { r with updates }
    match answer with
    | .item sight => takeAll now values isOver rounds (r.note now sight)
    | .ended => { r.note now .finished with finished := true }
    | .pending => r

def run (r : Reader) (now : Nat) (s : Supervisor Stage) : Reader :=
  if r.finished then r else takeAll now (published r.followed s) s.isOver 3 r

def wakeAt (r : Reader) : Option Nat := if r.finished then none else r.updates.wakeAt

end Reader

end LivePlayback.Rehearsal
