import LivePlayback.Broadcast
import LivePlayback.Rehearsal.Desk
import LivePlayback.Session.Event
import LivePlayback.State
import LivePlayback.UpdateRate

/-!
# Actions

What a rehearsal of sessions is told to do, and what doing it comes to.
-/

namespace LivePlayback.Rehearsal
set_option autoImplicit false

open Broadcast (Heard)

inductive Action where
  | start (url : String)
  | stop
  | isStopped
  | shutDown
  | dropSession
  | player
  | load (url : String)
  | stopPlayer
  | dropPlayer
  | accept
  /-- Connections are by default the one accepted last. -/
  | send (conn : Option Nat) (item : FeedItem)
  | isClosed (conn : Option Nat)
  | waitClosed (conn : Option Nat) (limit : Duration)
  | dropFeed (conn : Option Nat)
  | stopListening
  | refuse (on : Bool)
  | connectMode (manner : Manner) (delay : Duration)
  | stopOn (hook : Hook)
  | finish (generation : Nat) (rejection : Option String)
  | completeLate (generation : Nat)
  | unsupported (codec : String)
  | refuseAppends (on : Bool)
  | hidden (on : Bool) (bufferedEnd : Option Float)
  | completeAtOnce (on : Bool)
  | failCreate (why : Option Fault)
  | breakCreate (on : Bool)
  | probe (generation : Nat)
  | advance (limit : Duration)
  | waitState (state : SessionState) (limit : Duration)
  | waitAppends (count : Nat) (limit : Duration)
  | waitReconnecting (limit : Duration)
  | metadata
  | subscribe
  | drain (subscription : Nat)
  /-- A rate that cannot be read is none. -/
  | watchMetadata (rate : Option UpdateRate)
  | watchState
  | batch (actions : List Action)
  | unknown
  deriving Inhabited

inductive Outcome where
  /-- There is nothing to act on, or nothing to tell. -/
  | nothing
  | flag (b : Bool)
  | text (s : String)
  | failed (why : Fault)
  | noSurface
  | playerIdle
  | accepted (a : Exchange.Acceptance)
  | metadata (m : Metadata)
  | index (n : Nat)
  | probe (p : Stage.Probe)
  | drained (heard : List (Heard Event)) (closed : Bool)
  | badRate
  | unknown
  | all (outcomes : List Outcome)
  deriving Inhabited

end LivePlayback.Rehearsal
