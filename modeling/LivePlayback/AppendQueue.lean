import LivePlayback.Codecs
import LivePlayback.State

/-!
# The append queue

A sink takes one chunk at a time. A chunk goes straight to an idle sink; later ones wait, and each
completion hands over the next. A chunk that the sink refuses is skipped. What a sink does to its
surroundings is a function on them, so the queue works over any sink.
-/

namespace LivePlayback
set_option autoImplicit false

/-- A sink's answer to a chunk. -/
inductive Answer where
  | accepted
  | refused (why : Fault)
  /-- The sink broke down and takes its session with it. -/
  | crashed
  deriving DecidableEq, Repr

/-- What a sink does to the surroundings `τ`. -/
structure Sink (τ : Type) where
  append : τ → ByteArray → Answer × τ
  release : τ → τ

structure AppendQueue where
  codecs : Codecs
  generation : Nat
  state : QueueState
  /-- Chunks behind the one in flight, oldest first. -/
  pending : List ByteArray
  /-- How many chunks the sink accepted. -/
  issued : Nat
  rejected : Nat

/-- What is known of a queue when it is destroyed. -/
structure QueueSummary where
  codecs : Codecs
  generation : Nat
  issued : Nat
  rejected : Nat
  /-- Chunks that were still waiting. -/
  dropped : Nat
  deriving DecidableEq

namespace AppendQueue

variable {τ : Type}

/-- A queue and its surroundings after an operation. -/
structure Progress (τ : Type) where
  queue : AppendQueue
  world : τ
  crashed : Bool

def create (codecs : Codecs) (generation : Nat) : AppendQueue :=
  ⟨codecs, generation, .idle, [], 0, 0⟩

/-- Offers chunks until one is accepted; the rest waits. -/
def offer (sink : Sink τ) (q : AppendQueue) (world : τ) : List ByteArray → Progress τ
  | [] => ⟨{ q with state := .idle, pending := [] }, world, false⟩
  | chunk :: rest =>
    match sink.append world chunk with
    | (.accepted, world) =>
      ⟨{ q with state := .appending, pending := rest, issued := q.issued + 1 }, world, false⟩
    | (.refused _, world) => offer sink { q with rejected := q.rejected + 1 } world rest
    | (.crashed, world) => ⟨{ q with pending := rest }, world, true⟩

def enqueue (sink : Sink τ) (q : AppendQueue) (chunk : ByteArray) (world : τ) : Progress τ :=
  match q.state with
  | .idle => q.offer sink world (chunk :: q.pending)
  | .appending => ⟨{ q with pending := q.pending ++ [chunk] }, world, false⟩
  | .destroyed => ⟨q, world, false⟩

/-- The sink is done with the chunk in flight, or rejects it late. -/
def finish (sink : Sink τ) (q : AppendQueue) (rejection : Option String) (world : τ) :
    Progress τ :=
  match q.state with
  | .appending =>
    let rejected := if rejection.isSome then q.rejected + 1 else q.rejected
    { q with rejected }.offer sink world q.pending
  | .idle | .destroyed => ⟨q, world, false⟩

def summary (q : AppendQueue) : QueueSummary :=
  ⟨q.codecs, q.generation, q.issued, q.rejected, q.pending.length⟩

/-- Releases the sink and drops what waits; the summary is given the first time only. -/
def destroy (sink : Sink τ) (q : AppendQueue) (world : τ) :
    AppendQueue × τ × Option QueueSummary :=
  match q.state with
  | .destroyed => (q, world, none)
  | .idle | .appending =>
    ({ q with state := .destroyed, pending := [] }, sink.release world, some q.summary)

section

variable {sink : Sink τ} {q : AppendQueue} {chunk : ByteArray} {rejection : Option String}
  {world : τ}

theorem enqueue_of_idle (h : q.state = .idle) :
    q.enqueue sink chunk world = q.offer sink world (chunk :: q.pending) := by
  simp only [enqueue, h]

theorem enqueue_of_appending (h : q.state = .appending) :
    q.enqueue sink chunk world = ⟨{ q with pending := q.pending ++ [chunk] }, world, false⟩ := by
  simp only [enqueue, h]

theorem enqueue_of_destroyed (h : q.state = .destroyed) :
    q.enqueue sink chunk world = ⟨q, world, false⟩ := by
  simp only [enqueue, h]

theorem finish_of_idle (h : q.state = .idle) :
    q.finish sink rejection world = ⟨q, world, false⟩ := by
  simp only [finish, h]

theorem finish_of_appending (h : q.state = .appending) :
    q.finish sink rejection world =
      { q with rejected := if rejection.isSome then q.rejected + 1 else q.rejected }.offer sink
        world q.pending := by
  simp only [finish, h]

theorem finish_of_destroyed (h : q.state = .destroyed) :
    q.finish sink rejection world = ⟨q, world, false⟩ := by
  simp only [finish, h]

theorem destroy_of_destroyed (h : q.state = .destroyed) :
    q.destroy sink world = (q, world, none) := by
  simp only [destroy, h]

theorem destroy_of_ne (h : q.state ≠ .destroyed) :
    q.destroy sink world =
      ({ q with state := .destroyed, pending := [] }, sink.release world, some q.summary) := by
  unfold destroy
  split
  · exact absurd ‹_› h
  · rfl
  · rfl

end

end AppendQueue

end LivePlayback
