import LivePlayback.Pacer

/-!
# The latest item

Thins a stream out: of the items that arrive while the next slot is awaited only the newest is
kept. The end of the source lets a held item out at once.
-/

namespace LivePlayback
set_option autoImplicit false

structure Latest (α : Type) where
  pacer : Pacer
  held : Option α
  /-- The source has ended. -/
  finished : Bool

/-- What asking a stream gives. -/
inductive Poll (α : Type) where
  | item (a : α)
  | ended
  | pending

namespace Latest

variable {α : Type}

def start? (period now : Nat) : Option (Latest α) :=
  (Pacer.start? period now).map fun pacer => ⟨pacer, none, false⟩

/-- Takes in what the source has ready; a source that has ended is not asked again. -/
def absorb (l : Latest α) (arrivals : List α) (sourceEnded : Bool) : Latest α :=
  if l.finished then l
  else { l with held := arrivals.getLast?.or l.held, finished := sourceEnded }

/-- Gives the held item out, when there is one and a slot for it. -/
def emit (l : Latest α) (now : Nat) : Poll α × Latest α :=
  match l.held with
  | none => (if l.finished then .ended else .pending, l)
  | some a =>
    if l.finished then (.item a, { l with held := none })
    else match l.pacer.take? now with
      | some pacer => (.item a, { l with pacer, held := none })
      | none => (.pending, l)

def poll (l : Latest α) (now : Nat) (arrivals : List α) (sourceEnded : Bool) :
    Poll α × Latest α :=
  (l.absorb arrivals sourceEnded).emit now

/-- When asking again may help without a new arrival. -/
def wakeAt (l : Latest α) : Option Nat :=
  if l.held.isSome && !l.finished then some l.pacer.slot else none

end Latest

end LivePlayback
