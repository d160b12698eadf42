import LivePlayback.Proofs.Session.Run

/-!
# Acts

What a session does, in its smallest parts. A handler that calls the surface again and again is a
chain of acts, each of them one change of the supervisor with what was true when it was made, so an
invariant is proved act by act and never by opening a handler.

While a queue hands over chunks it is idle here and what it still has to offer is pending; between
two handlers an idle queue has nothing pending.
-/

namespace LivePlayback
set_option autoImplicit false

variable {σ : Type}

/-- Whether a queue is in a state in which handlers leave it. -/
structure AppendQueue.Ready (q : AppendQueue) : Prop where
  alive : q.state ≠ .destroyed
  drained : q.state = .idle → q.pending = []

/-- A chunk was offered to a sink, which took it or not. -/
def Supervisor.offerTo (out : Surface σ) (generation : Nat) (chunk : ByteArray) (accepted : Bool)
    (s : Supervisor σ) : Supervisor σ :=
  (s.note (.offered generation chunk accepted)).absorb
    (out.append s.surface generation chunk).toAftermath

/-! ## Acts of an open session -/

/-- What a call leaves behind that concerns no chunk. -/
inductive Inquiry (out : Surface σ) (x : σ) : Aftermath σ → Prop where
  | supports (mimeType : String) : Inquiry out x (out.supports x mimeType).toAftermath
  | createSink (codecs : Codecs) (generation : Nat) :
      Inquiry out x (out.createSink x codecs generation).toAftermath
  | hidden : Inquiry out x (out.hidden x).toAftermath
  | bufferedEnd : Inquiry out x (out.bufferedEnd x).toAftermath
  | seek (position : Float) : Inquiry out x (out.seek x position).toAftermath

inductive Hears (out : Surface σ) : Supervisor σ → Supervisor σ → Prop where
  | refl (s : Supervisor σ) : Hears out s s
  | call {s s' : Supervisor σ} {a : Aftermath σ} (h : Hears out s s')
      (ha : Inquiry out s'.surface a) : Hears out s (s'.absorb a)

/-- A frame that comes in is handled. -/
structure Receptive (s : Supervisor σ) : Prop where
  phase : s.phase = .waiting
  transport : s.transport.isSome = true
  running : s.halted = false

/-- An act of a session while its connection is open. -/
inductive PlayAct (out : Surface σ) : Supervisor σ → Supervisor σ → Prop where
  | hear {s s' : Supervisor σ} (h : Hears out s s') : PlayAct out s s'
  | seek (s : Supervisor σ) (position : Float) : PlayAct out s (s.note (.sought position))
  | malformed {s : Supervisor σ} {f : ByteArray} {why : Fault} (hr : Receptive s)
      (hf : Content.ofFrame f = .error why) :
      PlayAct out s { s.register f with
        totals := { (s.register f).totals with malformedFrames := s.totals.malformedFrames + 1 } }
  | publish {s : Supervisor σ} {f : ByteArray} {m : Metadata} (hr : Receptive s)
      (hf : Content.ofFrame f = .ok (.metadata m)) :
      PlayAct out s (((s.register f).note (.metadata m)).emit (.metadata m))
  /-- The metadata cannot be put on record, and takes the session down. -/
  | withhold {s : Supervisor σ} {f : ByteArray} {m : Metadata} (hr : Receptive s)
      (hf : Content.ofFrame f = .ok (.metadata m)) : PlayAct out s (s.register f)
  /-- A chunk that comes while there is no sink. -/
  | stray {s : Supervisor σ} {f chunk : ByteArray} (hr : Receptive s)
      (hf : Content.ofFrame f = .ok (.media chunk)) (hq : s.queue = none) :
      PlayAct out s { s.register f with
        totals := { (s.register f).totals with droppedChunks := s.totals.droppedChunks + 1 } }
  | enqueue {s : Supervisor σ} {f chunk : ByteArray} {q : AppendQueue} (hr : Receptive s)
      (hf : Content.ofFrame f = .ok (.media chunk)) (hq : s.queue = some q) (hd : q.Ready) :
      PlayAct out s { s.register f with
        totals := { (s.register f).totals with chunks := s.totals.chunks + 1 }
        queue := some { q with pending := q.pending ++ [chunk] } }
  | accept {s : Supervisor σ} {q : AppendQueue} {chunk : ByteArray} {rest : List ByteArray}
      (hw : s.phase = .waiting) (hq : s.queue = some q) (hi : q.state = .idle)
      (hp : q.pending = chunk :: rest)
      (ha : (out.append s.surface q.generation chunk).answer = some none) :
      PlayAct out s { s.offerTo out q.generation chunk true with
        queue := some { q with state := .appending, pending := rest, issued := q.issued + 1 } }
  | refuse {s : Supervisor σ} {q : AppendQueue} {chunk : ByteArray} {rest : List ByteArray}
      {why : Fault} (hw : s.phase = .waiting) (hq : s.queue = some q) (hi : q.state = .idle)
      (hp : q.pending = chunk :: rest)
      (ha : (out.append s.surface q.generation chunk).answer = some (some why)) :
      PlayAct out s { s.offerTo out q.generation chunk false with
        queue := some { q with pending := rest, rejected := q.rejected + 1 } }
  /-- A notice that ends the append in flight. -/
  | finish {s : Supervisor σ} {q : AppendQueue} {n : Notice} {rest : List Notice}
      (hn : s.notices = n :: rest) (hq : s.queue = some q) (hg : q.generation = n.generation)
      (ha : q.state = .appending) :
      PlayAct out s { s.note (.finished n.generation n.rejection) with
        notices := rest
        queue := some { q with
          state := .idle
          rejected := if n.rejection.isSome then q.rejected + 1 else q.rejected } }
  /-- A notice that comes to nothing. -/
  | ignore {s : Supervisor σ} {n : Notice} {rest : List Notice} (hn : s.notices = n :: rest) :
      PlayAct out s { s with notices := rest }
  | install {s s' : Supervisor σ} {f : ByteArray} {codecs : Codecs} (hr : Receptive s)
      (hf : Content.ofFrame f = .ok (.codecs codecs))
      (h : Hears out ((s.register f).announce out codecs) s') :
      PlayAct out s (s'.install codecs)
  | decline {s s' : Supervisor σ} {f : ByteArray} {codecs : Codecs} {why : Fault}
      (hr : Receptive s) (hf : Content.ofFrame f = .ok (.codecs codecs))
      (h : Hears out ((s.register f).announce out codecs) s') :
      PlayAct out s (s'.reportUnsupported codecs why)
  /-- An announcement on which the surface breaks down. -/
  | falter {s s' : Supervisor σ} {f : ByteArray} {codecs : Codecs} (hr : Receptive s)
      (hf : Content.ofFrame f = .ok (.codecs codecs))
      (h : Hears out ((s.register f).announce out codecs) s') : PlayAct out s s'

def PlayActs (out : Surface σ) : Supervisor σ → Supervisor σ → Prop :=
  Relation.ReflTransGen (PlayAct out)

/-- A sink breaks down over the next chunk that it is offered, which is lost. -/
inductive Breaks (out : Surface σ) : Supervisor σ → Supervisor σ → Prop where
  | mk {s : Supervisor σ} {q : AppendQueue} {chunk : ByteArray} {rest : List ByteArray}
      (hq : s.queue = some q) (hi : q.state = .idle) (hp : q.pending = chunk :: rest)
      (ha : (out.append s.surface q.generation chunk).answer = none) :
      Breaks out s { s.absorb (out.append s.surface q.generation chunk).toAftermath with
        phase := .crashed
        queue := some { q with pending := rest } }

/-- How a handler of an open session goes: by acts, at the end of which it has gone well or the
session breaks down. -/
inductive Plays (out : Surface σ) (s : Supervisor σ) : Supervisor σ → Prop where
  | well {s' : Supervisor σ} (h : PlayActs out s s') (hr : ∀ q, s'.queue = some q → q.Ready) :
      Plays out s s'
  | crash {s' : Supervisor σ} (h : PlayActs out s s') : Plays out s (s'.crash out)
  | breakdown {s₁ s₂ : Supervisor σ} (h : PlayActs out s s₁) (hb : Breaks out s₁ s₂) :
      Plays out s (s₂.crash out)

/-! ## Destroying a queue -/

namespace Supervisor

variable {out : Surface σ} {s : Supervisor σ}

/-- The queue's sink is released and its summary written. -/
def release (out : Surface σ) (q : AppendQueue) (s : Supervisor σ) : Supervisor σ :=
  (({ s with queue := none }.note (.released q.generation)).absorb
    (out.release s.surface q.generation)).note (.queueEnded q.summary)

theorem destroyQueue_of_none (h : s.queue = none) : s.destroyQueue out = s := by
  simp [destroyQueue, h]

theorem destroyQueue_of_some {q : AppendQueue} (hq : s.queue = some q) (hd : q.state ≠ .destroyed) :
    s.destroyQueue out = s.release out q := by
  unfold destroyQueue AppendQueue.destroy
  rw [hq]
  cases hs : q.state with
  | destroyed => exact absurd hs hd
  | idle | appending => simp only [hs]; rfl

theorem destroyQueue_cases (out : Surface σ) (s : Supervisor σ) :
    s.destroyQueue out = { s with queue := none } ∨
      ∃ q, s.queue = some q ∧ s.destroyQueue out = s.release out q := by
  cases hq : s.queue with
  | none =>
    left
    rw [destroyQueue_of_none hq, ← hq]
  | some q =>
    by_cases hd : q.state = .destroyed
    · left
      simp [destroyQueue, AppendQueue.destroy, hq, hd]
    · exact .inr ⟨q, rfl, destroyQueue_of_some hq hd⟩

theorem destroyQueue_queue (out : Surface σ) (s : Supervisor σ) :
    (s.destroyQueue out).queue = none := by
  rcases destroyQueue_cases out s with h | ⟨q, _, h⟩
  · rw [h]
  · rw [h]
    rfl

/-- Of a session that breaks down neither the phase matters nor whether its queue was at work. -/
theorem crash_congr {q q' : AppendQueue} (phase : Phase) (hd : q.state ≠ .destroyed)
    (hd' : q'.state ≠ .destroyed) (h : q.summary = q'.summary) :
    { s with queue := some q }.crash out = { s with phase, queue := some q' }.crash out := by
  have hg : q.generation = q'.generation := congrArg QueueSummary.generation h
  obtain ⟨_, _, _, _, _, _, transport, _⟩ := s
  cases transport <;> unfold crash dropTransport note <;>
    rw [destroyQueue_of_some rfl hd, destroyQueue_of_some rfl hd'] <;>
    simp only [release, hg, h] <;> rfl

/-- Its queue, if there is one, was not destroyed. -/
def Alive (s : Supervisor σ) : Prop := ∀ q, s.queue = some q → q.state ≠ .destroyed

theorem alive_of_none (h : s.queue = none) : s.Alive := fun _ hq => by cases h.symm.trans hq

theorem alive_of_some {q : AppendQueue} (h : s.queue = some q) (hd : q.state ≠ .destroyed) :
    s.Alive := fun _ hq => by
  cases h.symm.trans hq
  exact hd

end Supervisor

/-! ## What acts leave alone -/

/-- Two supervisors that stand at the same point of their session; a stop may have been asked for
in between. -/
structure Abreast (s s' : Supervisor σ) : Prop where
  phase : s'.phase = s.phase
  state : s'.state = s.state
  transport : s'.transport = s.transport
  timer : s'.timer = s.timer
  config : s'.config = s.config
  stopped : s.stopRequested = true → s'.stopRequested = true

namespace Abreast

variable {out : Surface σ} {s s₁ s₂ : Supervisor σ}

theorem refl (s : Supervisor σ) : Abreast s s := ⟨rfl, rfl, rfl, rfl, rfl, id⟩

theorem trans (h : Abreast s s₁) (h' : Abreast s₁ s₂) : Abreast s s₂ :=
  ⟨h'.phase.trans h.phase, h'.state.trans h.state, h'.transport.trans h.transport,
    h'.timer.trans h.timer, h'.config.trans h.config, fun hr => h'.stopped (h.stopped hr)⟩

theorem absorb (s : Supervisor σ) (a : Aftermath σ) : Abreast s (s.absorb a) :=
  ⟨rfl, rfl, rfl, rfl, rfl, fun hr => by simp [Supervisor.absorb, hr]⟩

theorem note (s : Supervisor σ) (e : Entry) : Abreast s (s.note e) :=
  ⟨rfl, rfl, rfl, rfl, rfl, id⟩

theorem withQueue (s : Supervisor σ) (queue : Option AppendQueue) : Abreast s { s with queue } :=
  ⟨rfl, rfl, rfl, rfl, rfl, id⟩

theorem release (q : AppendQueue) (s : Supervisor σ) : Abreast s (s.release out q) :=
  (((withQueue s none).trans (note _ _)).trans (absorb _ _)).trans (note _ _)

theorem destroyQueue (out : Surface σ) (s : Supervisor σ) : Abreast s (s.destroyQueue out) := by
  rcases Supervisor.destroyQueue_cases out s with h | ⟨q, _, h⟩ <;> rw [h]
  · exact withQueue s none
  · exact release q s

theorem announce (f : ByteArray) (codecs : Codecs) (s : Supervisor σ) :
    Abreast s ((s.register f).announce out codecs) := by
  obtain ⟨hp, hs, ht, hm, hc, hr⟩ := destroyQueue out (s.register f)
  exact ⟨hp, hs, ht, hm, hc, hr⟩

theorem offerTo (generation : Nat) (chunk : ByteArray) (accepted : Bool) (s : Supervisor σ) :
    Abreast s (s.offerTo out generation chunk accepted) :=
  (note s _).trans (absorb _ _)

theorem receptive (h : Abreast s s₁) (hr : Receptive s₁) : Receptive s := by
  obtain ⟨hp, ht, hr⟩ := hr
  refine ⟨h.phase ▸ hp, h.transport ▸ ht, ?_⟩
  rw [Supervisor.halted, h.state, Bool.or_eq_false_iff] at hr
  rw [Supervisor.halted, Bool.or_eq_false_iff]
  refine ⟨?_, hr.2⟩
  cases hs : s.stopRequested with
  | false => rfl
  | true => exact absurd (h.stopped hs) (by simp [hr.1])

end Abreast

theorem Journal.ofNotices_append (ns ns' : List Notice) :
    Journal.ofNotices (ns ++ ns') = .ofNotices ns' ++ .ofNotices ns := by
  simp [ofNotices]

theorem Journal.mem_ofNotices_iff {ns : List Notice} {e : Entry} :
    e ∈ Journal.ofNotices ns ↔ ∃ n ∈ ns, e = .notified n.generation := by
  simp [ofNotices, eq_comm]

namespace Hears

variable {out : Surface σ} {s s' : Supervisor σ}

theorem abreast (h : Hears out s s') : Abreast s s' := by
  induction h with
  | refl => exact .refl _
  | call _ _ ih => exact ih.trans (.absorb _ _)

theorem queue (h : Hears out s s') : s'.queue = s.queue := by
  induction h with
  | refl => rfl
  | call _ _ ih => exact ih

theorem generation (h : Hears out s s') : s'.generation = s.generation := by
  induction h with
  | refl => rfl
  | call _ _ ih => exact ih

/-- All that comes in meanwhile are notices. -/
theorem heard (h : Hears out s s') : ∃ notices : List Notice,
    s'.notices = s.notices ++ notices ∧ s'.journal = .ofNotices notices ++ s.journal := by
  induction h with
  | refl => exact ⟨[], by simp, rfl⟩
  | @call s' a _ _ ih =>
    obtain ⟨notices, hn, hj⟩ := ih
    refine ⟨notices ++ a.notices, ?_, ?_⟩
    · rw [Supervisor.absorb, hn, List.append_assoc]
    · rw [Supervisor.absorb, hj, Journal.ofNotices_append, List.append_assoc]

end Hears

theorem PlayAct.abreast {out : Surface σ} {s s' : Supervisor σ} (h : PlayAct out s s') :
    Abreast s s' := by
  cases h with
  | hear h => exact h.abreast
  | install _ _ h | decline _ _ h =>
    obtain ⟨hp, hs, ht, hm, hc, hr⟩ := (Abreast.announce _ _ s).trans h.abreast
    exact ⟨hp, hs, ht, hm, hc, hr⟩
  | falter _ _ h => exact (Abreast.announce _ _ s).trans h.abreast
  | accept | refuse => exact (Abreast.offerTo _ _ _ s).trans (.withQueue _ _)
  | _ => exact ⟨rfl, rfl, rfl, rfl, rfl, id⟩

theorem PlayAct.alive {out : Surface σ} {s s' : Supervisor σ} (h : PlayAct out s s')
    (ha : s.Alive) : s'.Alive := by
  cases h with
  | hear h => exact fun q hq => ha q (h.queue ▸ hq)
  | enqueue _ _ hq hd => exact Supervisor.alive_of_some rfl hd.alive
  | accept => exact Supervisor.alive_of_some rfl nofun
  | @refuse q _ _ _ _ hq => exact Supervisor.alive_of_some rfl (ha q hq)
  | finish => exact Supervisor.alive_of_some rfl nofun
  | install => exact Supervisor.alive_of_some rfl nofun
  | decline _ _ h | falter _ _ h =>
    exact Supervisor.alive_of_none (h.queue.trans (Supervisor.destroyQueue_queue out _))
  | _ => exact ha

theorem Breaks.alive {out : Surface σ} {s s' : Supervisor σ} (h : Breaks out s s') (ha : s.Alive) :
    s'.Alive := by
  cases h with
  | @mk q _ _ hq => exact Supervisor.alive_of_some rfl (ha q hq)

theorem PlayActs.alive {out : Surface σ} {s s' : Supervisor σ} (h : PlayActs out s s')
    (ha : s.Alive) : s'.Alive := by
  induction h with
  | refl => exact ha
  | tail _ act ih => exact act.alive ih

theorem Breaks.state {out : Surface σ} {s s' : Supervisor σ} (h : Breaks out s s') :
    s'.state = s.state := by
  cases h with
  | mk => rfl

theorem PlayActs.abreast {out : Surface σ} {s s' : Supervisor σ} (h : PlayActs out s s') :
    Abreast s s' := by
  induction h with
  | refl => exact .refl _
  | tail _ act ih => exact ih.trans act.abreast

end LivePlayback
