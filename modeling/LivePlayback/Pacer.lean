import LivePlayback.Time

/-!
# Pacing

A pacer hands out slots. A slot can be taken from its time on; the next one follows a period after
it, or a period after the taking if that was late by more than five milliseconds. No slot is set
for later than the longest time after the taking of the one before.
-/

namespace LivePlayback
set_option autoImplicit false

structure Pacer where
  /-- In nanoseconds. -/
  period : Nat
  slot : Nat
  deriving DecidableEq, Repr

namespace Pacer

/-- Lateness in nanoseconds up to which the rhythm is kept. -/
def grace : Nat := 5 * nanosPerMilli

/-- The first slot is now. There is no pacer without a period. -/
def start? (period now : Nat) : Option Pacer := if period = 0 then none else some ⟨period, now⟩

def nextSlot (p : Pacer) (now : Nat) : Nat :=
  min (if now ≤ p.slot + grace then p.slot + p.period else now + p.period)
    (Duration.longest.after now)

/-- Takes the slot, if its time has come. -/
def take? (p : Pacer) (now : Nat) : Option Pacer :=
  if p.slot ≤ now then some { p with slot := p.nextSlot now } else none

theorem start?_eq_none_iff {period now : Nat} : start? period now = none ↔ period = 0 := by
  unfold start?
  split <;> simp_all

end Pacer

end LivePlayback
