import LivePlayback.Latest
import LivePlayback.UpdateRate

/-!
# Updates

A reader that follows the latest of the values that are published, at its own pace. It meets a value
only if it looks while that value is the latest one; what it has met it does not meet again, and the
end comes after the last value.
-/

namespace LivePlayback
set_option autoImplicit false

structure Updates (α : Type) where
  /-- How many values there were at the last look. -/
  seen : Nat
  /-- Thins the values out, if there is a limit to their rate. -/
  thinning : Option (Latest α)

namespace Updates

variable {α : Type}

/-- All that can be met. -/
def unlimited : Updates α := ⟨0, none⟩

/-- None if the rate leaves no time between two values. -/
def ofRate? (rate : UpdateRate) (now : Nat) : Option (Updates α) :=
  match rate.interval with
  | none => some unlimited
  | some interval => (Latest.start? interval.nanos now).map fun l => ⟨0, some l⟩

/-- The latest value, if it was not met yet. -/
def look (u : Updates α) (published : List α) : Option α × Updates α :=
  if u.seen < published.length then
    (published.getLast?, { u with seen := published.length })
  else (none, u)

/-- Asks for the next value; `isOver` says that no other value will be published. -/
def poll (u : Updates α) (now : Nat) (published : List α) (isOver : Bool) : Poll α × Updates α :=
  let (fresh, u) := u.look published
  match u.thinning with
  | some l =>
    let (answer, l) := l.poll now fresh.toList isOver
    (answer, { u with thinning := some l })
  | none =>
    match fresh with
    | some a => (.item a, u)
    | none => (if isOver then .ended else .pending, u)

/-- When asking again may help although nothing is published. -/
def wakeAt (u : Updates α) : Option Nat := u.thinning.bind Latest.wakeAt

end Updates

end LivePlayback
