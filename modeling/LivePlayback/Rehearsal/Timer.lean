import LivePlayback.ReconnectTimer
import LivePlayback.Rehearsal.Script

/-!
# Rehearsing the reconnect timer

A timer on a clock that moves only by waiting. It is disarmed by a wait that it ends, and by
nothing else.
-/

namespace LivePlayback.Rehearsal
set_option autoImplicit false

inductive TimerStep where
  | arm
  | cancel
  | sleep (limit : Duration)
  /-- Waits for the timer, up to a limit. -/
  | wait (limit : Duration)
  | rest

structure TimerBench where
  now : Nat
  timer : ReconnectTimer

structure TimerReport where
  now : Nat
  /-- Whether a wait was ended by the timer. -/
  fired : Option Bool
  armed : Bool
  deadline : Option Nat

namespace TimerBench

def create (delay : Duration) : TimerBench := ⟨0, .create delay⟩

/-- The timer wins if it is due when the limit is reached. -/
def wait (b : TimerBench) (limit : Nat) : Bool × TimerBench :=
  match b.timer.deadline with
  | none => (false, { b with now := limit })
  | some deadline =>
    let due := max b.now (Instant.ceilMilli deadline)
    if due ≤ limit then (true, ⟨due, b.timer.cancel⟩) else (false, { b with now := limit })

def take (b : TimerBench) : TimerStep → Option Bool × TimerBench
  | .arm => (none, { b with timer := b.timer.arm b.now })
  | .cancel => (none, { b with timer := b.timer.cancel })
  | .sleep limit => (none, { b with now := limit.alarm b.now })
  | .wait limit =>
    let (fired, b) := b.wait (limit.after b.now)
    (some fired, b)
  | .rest => (none, b)

def step (b : TimerBench) (s : TimerStep) : TimerReport × TimerBench :=
  let (fired, b) := b.take s
  (⟨b.now, fired, b.timer.armed, b.timer.deadline⟩, b)

end TimerBench

end LivePlayback.Rehearsal
