import LivePlayback.Exchange
import LivePlayback.Rehearsal.Script

/-!
# Rehearsing the exchange

Both ends of an exchange in one hand: lines are numbered in the order in which they are opened, and
that is also the order in which they are accepted.
-/

namespace LivePlayback.Rehearsal
set_option autoImplicit false

inductive ExchangeStep where
  | connect (url : String)
  | accept
  | next (i : Nat)
  | close (i : Nat)
  | dropTransport (i : Nat)
  | dropFeed (i : Nat)
  | stopListening
  | dropConnector
  | refuse (on : Bool)
  | send (i : Nat) (item : FeedItem)
  /-- The host asks whether the player's end is closed, or looks once at a wait for that. -/
  | isClosed (i : Nat)
  | other

inductive ExchangeReport where
  | transport (i : Nat)
  | failed (why : Fault)
  | accepted (a : Exchange.Acceptance)
  /-- None while nothing has come. -/
  | reception (r : Option Reception)
  | flag (b : Bool)
  /-- There is nothing to act on. -/
  | missing
  | unknown

namespace ExchangeReport

def ofFlag? : Option Bool → ExchangeReport
  | some b => .flag b
  | none => .missing

end ExchangeReport

open ExchangeReport in
def stepExchange (e : Exchange) : ExchangeStep → ExchangeReport × Exchange
  | .connect url =>
    if e.connectable then
      match e.connect url with
      | (.ok i, e) => (.transport i, e)
      | (.error why, e) => (.failed why, e)
    else (.missing, e)
  | .accept =>
    if e.listening then
      let (a, e) := e.accept
      (.accepted a, e)
    else (.missing, e)
  | .next i =>
    match e.transport? i with
    | none => (.missing, e)
    | some l =>
      let (r, l) := l.receive
      (.reception r, e.set i l)
  | .close i =>
    match e.transport? i with
    | none => (.missing, e)
    | some l => (.flag true, e.set i l.close)
  | .dropTransport i => (.flag (e.transport? i).isSome, e.modify i Line.drop)
  | .dropFeed i =>
    match e.feed? i with
    | none => (.flag false, e)
    | some l => (.flag true, e.set i l.dropFeed)
  | .stopListening => (.flag e.listening, e.stopListening)
  | .dropConnector => (.flag e.connectable, { e with connectable := false })
  | .refuse on =>
    (.flag e.listening, if e.listening then { e with refusing := on } else e)
  | .send i item =>
    let (sent, e) := e.send i item
    (ofFlag? sent, e)
  | .isClosed i => (ofFlag? ((e.feed? i).map Line.isClosed), e)
  | .other => (.unknown, e)

end LivePlayback.Rehearsal
