import LivePlayback.CaptureFile
import LivePlayback.Rehearsal.Script

/-!
# Rehearsing a replay

A replayed capture on a clock that moves only by waiting. A request that is given up at its limit
leaves the replay as it is.
-/

namespace LivePlayback.Rehearsal
set_option autoImplicit false

open CaptureFile (Reading)

inductive ReplayStep where
  | next
  /-- Asks for a frame and gives up after a while. -/
  | nextWithin (limit : Duration)
  | close
  | sleep (limit : Duration)

structure ReplayBench where
  now : Nat
  reading : Reading

inductive ReplayOutcome where
  | received (r : Reception)
  | pending
  | closed
  | slept

structure ReplayReport where
  now : Nat
  outcome : ReplayOutcome

namespace ReplayBench

/-- Waits for a frame; each round waits for a slot or for a portion of the file. -/
def receive (limit : Option Nat) : Nat → ReplayBench → ReplayOutcome × ReplayBench
  | 0, b => (.pending, b)
  | rounds + 1, b =>
    let (attempt, reading) := b.reading.poll b.now
    let b := { b with reading }
    match attempt with
    | .done r => (.received r, b)
    | .waitSlot slot =>
      let due := Instant.ceilMilli slot
      match limit with
      | some deadline =>
        if due ≤ deadline ∧ b.now < deadline then receive limit rounds { b with now := due }
        else (.pending, { b with now := deadline })
      | none => receive limit rounds { b with now := due }
    | .busy => if limit = some b.now then (.pending, b) else receive limit rounds b

def next (b : ReplayBench) (limit : Option Nat) : ReplayOutcome × ReplayBench :=
  b.receive limit (b.reading.portionsLeft + 2)

def take (b : ReplayBench) : ReplayStep → ReplayOutcome × ReplayBench
  | .next => b.next none
  | .nextWithin limit => b.next (some (limit.after b.now))
  | .close => (.closed, { b with reading := b.reading.close })
  | .sleep limit => (.slept, { b with now := limit.alarm b.now })

def step (b : ReplayBench) (s : ReplayStep) : ReplayReport × ReplayBench :=
  let (outcome, b) := b.take s
  (⟨b.now, outcome⟩, b)

end ReplayBench

end LivePlayback.Rehearsal
