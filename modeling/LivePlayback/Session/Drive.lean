import LivePlayback.Session.Turn

/-!
# Driving a supervisor

Runs a supervisor against a host, which opens its connections and answers for its transport, until
there is nothing left to handle or its allowance is used up. Most things that arrive cost one unit
of it; a stop, and what is left of a portion that was read before, cost nothing.
-/

namespace LivePlayback
set_option autoImplicit false

inductive Readiness (α : Type) where
  | ready (a : α)
  /-- Something else has to happen first. -/
  | later
  /-- It comes without anything else having to happen, but others may act before. -/
  | soon

inductive Connection where
  | opened
  | failed (why : Fault)
  | crashed

def Connection.input : Connection → Input
  | .opened => .connected
  | .failed why => .connectFailed why
  | .crashed => .broken

def Input.cost : Input → Nat
  | .reconnect | .notice _ => 1
  | _ => 0

structure HostReply (η α : Type) where
  answer : Readiness α
  host : η
  /-- It asked the session to stop meanwhile. -/
  stop : Bool
  /-- How much of the allowance it uses up. -/
  cost : Nat

/-- What a host with state `η` does for a supervisor. -/
structure Host (η : Type) where
  connect : η → (now : Nat) → (url : String) → HostReply η Connection
  receive : η → (now : Nat) → HostReply η Reception
  close : η → (now : Nat) → HostReply η Unit
  abandon : η → η
  drop : η → η

namespace Supervisor

variable {σ η : Type}

inductive Pause where
  | running
  | blocked
  /-- The host is at work; the run goes on without anything else having to happen. -/
  | busy
  /-- The allowance is used up. Others may act, then the run can go on. -/
  | yielded
  | finished
  deriving DecidableEq

structure Driven (σ η : Type) where
  supervisor : Supervisor σ
  host : η
  pause : Pause
  cost : Nat

/-- Handles an input and has the host give up what the supervisor no longer wants. -/
def handleWith (out : Surface σ) (host : Host η) (now : Nat) (s : Supervisor σ) (h : η)
    (i : Input) (cost : Nat) : Driven σ η :=
  let next := s.handle out now i
  let h := if s.phase = .connecting ∧ next.phase ≠ .connecting ∧ next.transport.isNone
    then host.abandon h else h
  let h := if s.transport.isSome ∧ next.transport.isNone then host.drop h else h
  ⟨next, h, .running, cost⟩

def stopIf (s : Supervisor σ) (stop : Bool) : Supervisor σ := if stop then s.requestStop else s

/-- Pauses, unless the session was stopped meanwhile. -/
def pauseWith {α : Type} (s : Supervisor σ) (r : HostReply η α) (pause : Pause) : Driven σ η :=
  if r.stop ∧ ¬ s.stopRequested then ⟨s.requestStop, r.host, .running, r.cost⟩
  else ⟨s, r.host, pause, r.cost⟩

def settle {α : Type} (out : Surface σ) (host : Host η) (now : Nat) (s : Supervisor σ)
    (r : HostReply η α) (input : α → Input) : Driven σ η :=
  match r.answer with
  | .ready a => handleWith out host now (s.stopIf r.stop) r.host (input a) r.cost
  | .later => s.pauseWith r .blocked
  | .soon => s.pauseWith r .busy

def closingDue (s : Supervisor σ) (now : Nat) : Bool :=
  match s.phase with
  | .closing deadline => deadline ≤ now
  | _ => false

def step (out : Surface σ) (host : Host η) (now : Nat) (s : Supervisor σ) (h : η) : Driven σ η :=
  match s.turn now with
  | .take i => handleWith out host now s h i i.cost
  | .ask .connect => s.settle out host now (host.connect h now s.url) Connection.input
  | .ask .frame => s.settle out host now (host.receive h now) .received
  | .ask .close =>
    let r := host.close h now
    match r.answer with
    | .ready () => handleWith out host now (s.stopIf r.stop) r.host .closed r.cost
    | _ =>
      if s.closingDue now then handleWith out host now s r.host .closed r.cost
      else s.pauseWith r .blocked
  | .idle => ⟨s, h, .blocked, 0⟩
  | .finished => ⟨s, h, .finished, 0⟩

/-- What a supervisor may use up before it makes way. -/
def allowance : Nat := 128

/-- Takes turns while there are any and something is left of the allowance, at most as many as
given. -/
def runWithin (out : Surface σ) (host : Host η) (now : Nat) :
    Nat → Nat → Supervisor σ → η → Driven σ η
  | 0, _, s, h => ⟨s, h, .yielded, 0⟩
  | turns + 1, left, s, h =>
    if left = 0 then ⟨s, h, .yielded, 0⟩
    else
      let d := s.step out host now h
      match d.pause with
      | .running => runWithin out host now turns (left - d.cost) d.supervisor d.host
      | _ => d

/-- Goes as far as a fresh allowance reaches. -/
def run (out : Surface σ) (host : Host η) (now turns : Nat) (s : Supervisor σ) (h : η) :
    Driven σ η :=
  runWithin out host now turns allowance s h

end Supervisor

end LivePlayback
