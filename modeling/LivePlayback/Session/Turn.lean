import LivePlayback.Reception
import LivePlayback.Session.Supervisor

/-!
# Turns

What a supervisor does next. A stop comes before a due timer, a due timer before a finished append,
and all of them before the transport.
-/

namespace LivePlayback
set_option autoImplicit false

/-- What a supervisor asks its transport, or its connector, for. -/
inductive Question where
  | connect
  | frame
  | close
  deriving DecidableEq

/-- What a supervisor handles. -/
inductive Input where
  /-- It runs for the first time. -/
  | begin
  | stop
  | reconnect
  | notice (n : Notice)
  | connected
  | connectFailed (why : Fault)
  | received (r : Reception)
  | closed
  /-- The connector, or the transport, broke down. -/
  | broken

/-- An input that is there already, or a question. -/
inductive Turn where
  | take (i : Input)
  | ask (q : Question)
  /-- There is nothing to wait for but a stop, a notice or the timer. -/
  | idle
  | finished

namespace Supervisor

variable {σ : Type}

def turn (s : Supervisor σ) (now : Nat) : Turn :=
  match s.phase with
  | .spawned => .take .begin
  | .connecting => if s.stopRequested then .take .stop else .ask .connect
  | .waiting =>
    if s.stopRequested then .take .stop
    else if s.timer.due now then .take .reconnect
    else match s.notices with
      | n :: _ => .take (.notice n)
      | [] => if s.transport.isSome then .ask .frame else .idle
  | .closing _ => .ask .close
  | .ended | .crashed => .finished

def handle (out : Surface σ) (now : Nat) (s : Supervisor σ) : Input → Supervisor σ
  | .begin => s.connect out now
  | .stop => s.abandonConnect.teardown out now
  | .reconnect => ({ s with timer := s.timer.cancel }.note (.fired now)).connect out now
  | .notice n => { s with notices := s.notices.tail }.handleNotice out n
  | .connected => s.opened
  | .connectFailed why => (s.note (.connectFailed s.totals.connects)).lose out now (some why)
  | .received (.frame f) => s.handleFrame out f
  | .received .closed => s.lose out now none
  | .received (.failed why) => s.lose out now (some why)
  | .closed => s.endClosing out
  | .broken => s.crash out

/-- When the supervisor goes on by itself. -/
def wakeAt (s : Supervisor σ) : Option Nat :=
  match s.phase with
  | .waiting => s.timer.deadline
  | .closing deadline => some deadline
  | _ => none

end Supervisor

end LivePlayback
