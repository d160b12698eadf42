import LivePlayback.Latest
import LivePlayback.Reception

/-!
# The exchange

Connections inside one process. Every attempt opens a line and waits until the host accepts it; the
host feeds frames into a line and the player takes them out. What was sent before the host let go
of its feed is still delivered.
-/

namespace LivePlayback
set_option autoImplicit false

/-- A channel without a bound, with one sender and one receiver. -/
structure Channel (α : Type) where
  /-- Sent and not yet taken, oldest first. -/
  items : List α
  senderHeld : Bool
  /-- The receiver lets nothing more in. -/
  closed : Bool
  receiverHeld : Bool

namespace Channel

variable {α : Type}

def create : Channel α := ⟨[], true, false, true⟩

/-- Nothing can be sent any more. -/
def isClosed (c : Channel α) : Bool := c.closed || !c.receiverHeld

/-- An item that cannot be sent is lost. -/
def send (c : Channel α) (a : α) : Bool × Channel α :=
  if c.isClosed then (false, c) else (true, { c with items := c.items ++ [a] })

/-- What was sent is taken out before the end is seen. -/
def receive (c : Channel α) : Poll α × Channel α :=
  match c.items with
  | a :: rest => (.item a, { c with items := rest })
  | [] => (if c.closed || !c.senderHeld then .ended else .pending, c)

def close (c : Channel α) : Channel α := { c with closed := true }

def dropSender (c : Channel α) : Channel α := { c with senderHeld := false }

/-- What was not taken yet is lost. -/
def dropReceiver (c : Channel α) : Channel α := { c with items := [], receiverHeld := false }

end Channel

inductive FeedItem where
  | frame (f : ByteArray)
  | fail (reason : String)

def FeedItem.reception : FeedItem → Reception
  | .frame f => .frame f
  | .fail reason => .failed (.transport reason)

structure Line where
  url : String
  channel : Channel FeedItem
  accepted : Bool
  /-- The player closed the connection. Both ends know it, however far the channel is. -/
  cancelled : Bool

namespace Line

def create (url : String) : Line := ⟨url, .create, false, false⟩

/-- Whether the player closed its end or gave it up. Whoever waits for that is told as soon as it is
so, and not before: this is the outcome of a look at such a wait, too. -/
def isClosed (l : Line) : Bool := l.cancelled || l.channel.isClosed

def hasFeed (l : Line) : Bool := l.accepted && l.channel.senderHeld

/-- Sends an item, unless the player's end is closed. -/
def send (l : Line) (item : FeedItem) : Bool × Line :=
  let (sent, channel) := l.channel.send item
  (sent, { l with channel })

/-- Asks for a frame; none while nothing has come. -/
def receive (l : Line) : Option Reception × Line :=
  if l.cancelled then (some .closed, l)
  else
    let (answer, channel) := l.channel.receive
    let l := { l with channel }
    match answer with
    | .item item => (some item.reception, l)
    | .ended => (some .closed, l)
    | .pending => (none, l)

/-- What was not taken yet is out of reach from then on. -/
def close (l : Line) : Line :=
  if l.cancelled then l else { l with cancelled := true, channel := l.channel.close }

def drop (l : Line) : Line := { l with channel := l.channel.dropReceiver }

def dropFeed (l : Line) : Line := { l with channel := l.channel.dropSender }

/-- A closed end stays closed, whatever was sent before. -/
theorem receive_close (l : Line) : l.close.receive = (some .closed, l.close) := by
  unfold receive close
  cases h : l.cancelled with
  | false => simp
  | true => simp [h]

end Line

structure Exchange where
  lines : List Line
  /-- How many lines the host has accepted, from the oldest. -/
  acceptedCount : Nat
  refusing : Bool
  listening : Bool
  connectable : Bool

namespace Exchange

def create : Exchange := ⟨[], 0, false, true, true⟩

def modify (e : Exchange) (i : Nat) (f : Line → Line) : Exchange :=
  { e with lines := e.lines.modify i f }

/-- Opens a line; its number, or why there is none. -/
def connect (e : Exchange) (url : String) : Except Fault Nat × Exchange :=
  if e.refusing then (.error (.transport (url ++ ": connection refused")), e)
  else if !e.listening then (.error (.transport (url ++ ": no listener")), e)
  else (.ok e.lines.length, { e with lines := e.lines ++ [.create url] })

inductive Acceptance where
  | line (i : Nat) (url : String)
  | pending
  | ended

def accept (e : Exchange) : Acceptance × Exchange :=
  match e.lines[e.acceptedCount]? with
  | some l =>
    (.line e.acceptedCount l.url,
      { e.modify e.acceptedCount (fun l => { l with accepted := true }) with
        acceptedCount := e.acceptedCount + 1 })
  | none => (if e.connectable then .pending else .ended, e)

/-- The host stops listening; feeds that it never accepted are let go. -/
def stopListening (e : Exchange) : Exchange :=
  { e with
    listening := false
    lines := e.lines.map fun l => if l.accepted then l else l.dropFeed }

def feed? (e : Exchange) (i : Nat) : Option Line := e.lines[i]?.filter Line.hasFeed

/-- The player's end of a line, while it is not given up. -/
def transport? (e : Exchange) (i : Nat) : Option Line :=
  e.lines[i]?.filter fun l => l.channel.receiverHeld

def set (e : Exchange) (i : Nat) (l : Line) : Exchange := { e with lines := e.lines.set i l }

/-- Sends into a feed; none if the host does not hold it. -/
def send (e : Exchange) (i : Nat) (item : FeedItem) : Option Bool × Exchange :=
  match e.feed? i with
  | none => (none, e)
  | some l =>
    let (sent, l) := l.send item
    (some sent, e.set i l)

end Exchange

end LivePlayback
