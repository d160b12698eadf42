import LivePlayback.AppendQueue
import LivePlayback.Rehearsal.Script

/-!
# Rehearsing an append queue

A queue over a sink that refuses chunks by their beginning and keeps what it has seen.
-/

namespace LivePlayback.Rehearsal
set_option autoImplicit false

/-- What a scripted sink sees. -/
inductive SinkEvent where
  | appended (chunk : ByteArray)
  | refused (chunk : ByteArray)
  | released

structure ScriptedSink where
  refusedPrefixes : List ByteArray
  refusesAll : Bool
  /-- A plain sink is not told of its release. -/
  plain : Bool
  /-- Newest first. -/
  seen : List SinkEvent

namespace ScriptedSink

def refuses (s : ScriptedSink) (chunk : ByteArray) : Bool :=
  s.refusesAll || s.refusedPrefixes.any fun p => (chunk.extract 0 p.size).data == p.data

def sink : Sink ScriptedSink where
  append s chunk :=
    if s.refuses chunk then
      (.refused (.append "refused"), { s with seen := .refused chunk :: s.seen })
    else (.accepted, { s with seen := .appended chunk :: s.seen })
  release s := if s.plain then s else { s with seen := .released :: s.seen }

end ScriptedSink

inductive QueueStep where
  | enqueue (chunk : ByteArray)
  | finish (rejection : Option String)
  | destroy
  /-- The queue is given up for good. -/
  | drop
  | refuse (beginnings : List ByteArray)
  | refuseAll (on : Bool)
  | rest

structure QueueBench where
  queue : Option AppendQueue
  sink : ScriptedSink

structure QueueReport where
  /-- None once the queue is given up. -/
  queue : Option AppendQueue
  seen : List SinkEvent
  ended : Option QueueSummary

namespace QueueBench

def create (codecs : Codecs) (generation : Nat) (plain : Bool) : QueueBench :=
  ⟨some (.create codecs generation), ⟨[], false, plain, []⟩⟩

def run (b : QueueBench) (f : AppendQueue → ScriptedSink → AppendQueue.Progress ScriptedSink) :
    QueueBench :=
  match b.queue with
  | none => b
  | some q =>
    let progress := f q b.sink
    ⟨some progress.queue, progress.world⟩

def destroy (b : QueueBench) (keep : Bool) : Option QueueSummary × QueueBench :=
  match b.queue with
  | none => (none, b)
  | some q =>
    let (q, sink, ended) := q.destroy ScriptedSink.sink b.sink
    (ended, ⟨if keep then some q else none, sink⟩)

def take (b : QueueBench) : QueueStep → Option QueueSummary × QueueBench
  | .enqueue chunk => (none, b.run fun q s => q.enqueue ScriptedSink.sink chunk s)
  | .finish rejection => (none, b.run fun q s => q.finish ScriptedSink.sink rejection s)
  | .destroy => b.destroy true
  | .drop => b.destroy false
  | .refuse beginnings => (none, { b with sink := { b.sink with refusedPrefixes := beginnings } })
  | .refuseAll on => (none, { b with sink := { b.sink with refusesAll := on } })
  | .rest => (none, b)

def step (b : QueueBench) (s : QueueStep) : QueueReport × QueueBench :=
  let (ended, b) := { b with sink := { b.sink with seen := [] } }.take s
  (⟨b.queue, b.sink.seen.reverse, ended⟩, b)

end QueueBench

end LivePlayback.Rehearsal
