import LivePlayback.Exchange
import LivePlayback.Rehearsal.Stage
import LivePlayback.Session.CaptureHost

/-!
# The host's desk

What a rehearsed session finds on the other side: the exchange or a capture file, and how connects
and closes are to go.
-/

namespace LivePlayback.Rehearsal
set_option autoImplicit false

inductive Manner where
  | normal
  /-- The connect never comes to an end. -/
  | hang
  /-- Closing never comes to an end. -/
  | stuckClose
  | badClose
  deriving DecidableEq

structure Attempt where
  wakeAt : Nat
  manner : Manner
  /-- The delay is over and the hook has been called. -/
  awake : Bool

/-- A line of the exchange that a session holds. -/
structure Link where
  line : Nat
  manner : Manner

/-- What all sessions share. -/
structure Desk where
  exchange : Exchange
  delay : Duration
  manner : Manner
  hook : Hook

structure Counter where
  desk : Desk
  /-- Whether the hook reaches this session. -/
  hookable : Bool
  attempt : Option Attempt
  link : Option Link
  capture : Option CaptureHost

namespace Counter

/-- Only connections of the exchange call hooks. -/
def stops (c : Counter) (hook : Hook) : Bool :=
  c.hookable && c.capture.isNone && c.desk.hook == hook

def withExchange (c : Counter) (exchange : Exchange) : Counter :=
  { c with desk := { c.desk with exchange } }

def current (c : Counter) (now : Nat) : Attempt :=
  c.attempt.getD ⟨c.desk.delay.alarm now, c.desk.manner, false⟩

def openLine (c : Counter) (url : String) (manner : Manner) : Connection × Counter :=
  match c.desk.exchange.connect url with
  | (.ok i, exchange) => (.opened, { c.withExchange exchange with link := some ⟨i, manner⟩ })
  | (.error why, exchange) => (.failed why, c.withExchange exchange)

def reach (c : Counter) (url : String) (a : Attempt) (now : Nat) :
    Readiness Connection × Counter :=
  match c.capture with
  | some h =>
    let (answer, h) := h.connect now url
    let attempt := match answer with
      | .ready _ => none
      | _ => some a
    (answer, { c with attempt, capture := some h })
  | none =>
    if a.manner = .hang then (.later, { c with attempt := some a })
    else
      let (connection, c) := { c with attempt := none }.openLine url a.manner
      (.ready connection, c)

def connect (c : Counter) (now : Nat) (url : String) : HostReply Counter Connection :=
  let a := c.current now
  if now < a.wakeAt then ⟨.later, { c with attempt := some a }, false, 0⟩
  else
    let stop := !a.awake && a.manner ≠ .hang && c.stops .connect
    let cost := if c.attempt.isSome then 1 else 0
    let (answer, c) := c.reach url { a with awake := true } now
    ⟨answer, c, stop, cost⟩

def receiveLine (c : Counter) : Readiness Reception × Counter :=
  match c.link with
  | none => (.later, c)
  | some link =>
    match c.desk.exchange.transport? link.line with
    | none => (.later, c)
    | some l =>
      let (r, l) := l.receive
      let c := c.withExchange (c.desk.exchange.set link.line l)
      match r with
      | none => (.later, c)
      | some r => (.ready r, c)

def receive (c : Counter) (now : Nat) : HostReply Counter Reception :=
  match c.capture with
  | some h =>
    let r := h.receive now
    ⟨r.answer, { c with capture := some r.host }, r.stop, r.cost⟩
  | none =>
    let (answer, c) := c.receiveLine
    match answer with
    | .ready (.frame _) => ⟨answer, c, c.stops .frame, 1⟩
    | .ready _ => ⟨answer, c, c.stops .close, 1⟩
    | _ => ⟨answer, c, false, 0⟩

def close (c : Counter) (_now : Nat) : HostReply Counter Unit :=
  match c.link with
  | some ⟨i, .normal⟩ =>
    ⟨.ready (), c.withExchange (c.desk.exchange.modify i Line.close), false, 0⟩
  | some ⟨_, .stuckClose⟩ => ⟨.later, c, false, 0⟩
  | _ => ⟨.ready (), c, false, 0⟩

def drop (c : Counter) : Counter :=
  let c := { c with capture := c.capture.map CaptureHost.host.drop }
  match c.link with
  | some link =>
    { c.withExchange (c.desk.exchange.modify link.line Line.drop) with link := none }
  | none => c

def host : Host Counter where
  connect := connect
  receive := receive
  close := close
  abandon c := { c with attempt := none, capture := c.capture.map CaptureHost.host.abandon }
  drop := drop

/-- Something is there to be taken from the line that the session holds. -/
def delivers (c : Counter) : Bool := c.receiveLine.1 matches .ready _

/-- When a connect or a paced replay goes on. -/
def wakeAt (c : Counter) (now : Nat) : Option Nat :=
  match c.attempt with
  | some a => if a.awake then none else some a.wakeAt
  | none => c.capture.bind (CaptureHost.wakeAt · now)

/-- How many turns a session may take before it has to wait. -/
def turns (c : Counter) : Nat :=
  let items := c.desk.exchange.lines.foldl (fun n l => n + l.channel.items.length) 0
  4 * items + (c.capture.map CaptureHost.turns).getD 0 + 64

end Counter

end LivePlayback.Rehearsal
