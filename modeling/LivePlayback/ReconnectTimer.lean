import LivePlayback.Time

/-!
# The reconnect timer

At most one alarm is set, always one delay after it was asked for. A disarmed timer never
fires.
-/

namespace LivePlayback
set_option autoImplicit false

structure ReconnectTimer where
  delay : Duration
  deadline : Option Nat
  deriving DecidableEq, Repr

namespace ReconnectTimer

def create (delay : Duration) : ReconnectTimer := ⟨delay, none⟩

/-- An earlier deadline is replaced. -/
def arm (t : ReconnectTimer) (now : Nat) : ReconnectTimer :=
  { t with deadline := some (t.delay.alarm now) }

def cancel (t : ReconnectTimer) : ReconnectTimer := { t with deadline := none }

def armed (t : ReconnectTimer) : Bool := t.deadline.isSome

def due (t : ReconnectTimer) (now : Nat) : Bool := t.deadline.any (· ≤ now)

/-- The disarmed timer, once the deadline has come. -/
def fire? (t : ReconnectTimer) (now : Nat) : Option ReconnectTimer :=
  if t.due now then some t.cancel else none

theorem due_iff {t : ReconnectTimer} {deadline : Nat} (h : t.deadline = some deadline)
    (now : Nat) : t.due now = true ↔ deadline ≤ now := by
  simp [due, h]

theorem due_arm_iff {t : ReconnectTimer} {now later : Nat} :
    (t.arm now).due later = true ↔ t.delay.alarm now ≤ later := by
  simp [arm, due]

theorem armed_of_due {t : ReconnectTimer} {now : Nat} (h : t.due now = true) :
    t.armed = true := by
  unfold due at h
  unfold armed
  cases hd : t.deadline with
  | none => simp [hd] at h
  | some deadline => rfl

end ReconnectTimer

end LivePlayback
