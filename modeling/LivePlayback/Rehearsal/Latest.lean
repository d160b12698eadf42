import LivePlayback.Latest
import LivePlayback.Rehearsal.Script

/-!
# Rehearsing a thinned stream

A source of items, thinned out, and a consumer that notes each item with its time. The consumer
runs whenever the clock is about to move, and after every step that lets it settle.
-/

namespace LivePlayback.Rehearsal
set_option autoImplicit false

variable {α : Type}

inductive LatestStep (α : Type) where
  | push (items : List α)
  | advance (limit : Duration)
  | close
  | rest

/-- An item, or the end, with the time at which the consumer met it. -/
structure LatestRecord (α : Type) where
  now : Nat
  item : Option α

structure LatestBench (α : Type) where
  now : Nat
  stream : Latest α
  /-- Pushed and not yet seen by the stream. -/
  arrivals : List α
  closed : Bool
  /-- The consumer has met the end. -/
  isOver : Bool
  /-- Newest first. -/
  records : List (LatestRecord α)

structure LatestReport (α : Type) where
  now : Nat
  records : List (LatestRecord α)

namespace LatestBench

def start? (period : Duration) : Option (LatestBench α) :=
  (Latest.start? period.nanos 0).map fun stream => ⟨0, stream, [], false, false, []⟩

/-- One item at most is taken per round, and one round meets the end. -/
def consume : Nat → LatestBench α → LatestBench α
  | 0, b => b
  | rounds + 1, b =>
    if b.isOver then b
    else
      let (poll, stream) := b.stream.poll b.now b.arrivals b.closed
      let b := { b with stream, arrivals := [] }
      match poll with
      | .pending => b
      | .ended => { b with isOver := true, records := ⟨b.now, none⟩ :: b.records }
      | .item a => consume rounds { b with records := ⟨b.now, some a⟩ :: b.records }

def settle (b : LatestBench α) : LatestBench α := b.consume 3

/-- Moves the clock; a slot on the way is met at its own time. -/
def advance (b : LatestBench α) (target : Nat) : LatestBench α :=
  if target ≤ b.now then b
  else
    let b := b.settle
    match b.stream.wakeAt with
    | none => { b with now := target }
    | some slot =>
      let due := Instant.ceilMilli slot
      if due < target then { { b with now := due }.settle with now := target }
      else { b with now := target }

def take (b : LatestBench α) : LatestStep α → LatestBench α
  | .push items => if b.closed then b else { b with arrivals := b.arrivals ++ items }
  | .advance limit => b.advance (limit.alarm b.now)
  | .close => { b with closed := true }
  | .rest => b

def step (b : LatestBench α) (s : LatestStep α × Bool) : LatestReport α × LatestBench α :=
  let b := { b with records := [] }.take s.1
  let b := if s.2 then b.settle else b
  (⟨b.now, b.records.reverse⟩, b)

end LatestBench

end LivePlayback.Rehearsal
