import LivePlayback.Rehearsal.Queue

/-!
# What becomes of chunks

Whatever arrives at a queue is offered to its sink once and in its turn, or still waits for it. The
sink may answer as it likes and reports may come when nothing is in flight. A chunk that waits does
so behind one that is in flight.
-/

namespace LivePlayback
set_option autoImplicit false

variable {τ : Type}

inductive QueueEntry where
  | offered (chunk : ByteArray) (accepted : Bool)
  /-- The sink is done with a chunk, or so it says; only with one in flight was that awaited. -/
  | reported (awaited : Bool)
  | released
  | ended (summary : QueueSummary)

namespace QueueEntry

def offer? : QueueEntry → Option ByteArray
  | .offered chunk _ => some chunk
  | _ => none

def isAccepted : QueueEntry → Bool
  | .offered _ accepted => accepted
  | _ => false

def isAwaited : QueueEntry → Bool
  | .reported awaited => awaited
  | _ => false

end QueueEntry

/-- All that happened around a queue, newest entry first. -/
abbrev QueueJournal := List QueueEntry

namespace QueueJournal

/-- What the sink was offered, in the order in which it was. -/
def offers (j : QueueJournal) : List ByteArray := (j.filterMap QueueEntry.offer?).reverse

theorem offers_offered (j : QueueJournal) (chunk : ByteArray) (accepted : Bool) :
    offers (.offered chunk accepted :: j) = j.offers ++ [chunk] := by
  simp [offers, QueueEntry.offer?]

def accepted (j : QueueJournal) : Nat := j.countP QueueEntry.isAccepted

/-- How many reports ended an append. -/
def awaited (j : QueueJournal) : Nat := j.countP QueueEntry.isAwaited

/-- Whether the sink took a chunk and did not report on it since. -/
def airborne : QueueJournal → Bool
  | [] => false
  | .offered _ true :: _ => true
  | .reported true :: _ => false
  | _ :: j => airborne j

/-- The sink took a chunk only when it was done with the one before. -/
def SingleFlight : QueueJournal → Prop
  | [] => True
  | .offered _ true :: j => airborne j = false ∧ SingleFlight j
  | _ :: j => SingleFlight j

/-- Between two chunks that were accepted there is a report that was awaited. -/
theorem SingleFlight.reported_mem {later between earlier : QueueJournal}
    {chunk chunk' : ByteArray}
    (h : SingleFlight (later ++ .offered chunk' true :: (between ++ .offered chunk true :: earlier))) :
    .reported true ∈ between := by
  -- When the later chunk was accepted nothing was in flight, although the earlier one had been.
  have hlanded : airborne (between ++ .offered chunk true :: earlier) = false := by
    induction later with
    | nil => exact h.1
    | cons e later ih =>
      refine ih ?_
      cases e with
      | offered _ accepted =>
        cases accepted with
        | false => exact h
        | true => exact h.2
      | _ => exact h
  clear h
  induction between with
  | nil => cases hlanded
  | cons e between ih =>
    cases e with
    | offered _ accepted =>
      cases accepted with
      | false => exact .tail _ (ih hlanded)
      | true => cases hlanded
    | reported awaited =>
      cases awaited with
      | false => exact .tail _ (ih hlanded)
      | true => exact .head _
    | _ => exact .tail _ (ih hlanded)

/-- What arrived is what was offered and, behind it, what waits; all that was accepted has been
reported on but for the chunk in flight, if there is one. -/
structure Tallies (j : QueueJournal) (waiting arrived : List ByteArray) (flying : Bool) :
    Prop where
  conserved : j.offers ++ waiting = arrived
  single : SingleFlight j
  airborne : airborne j = flying
  balance : j.accepted = j.awaited + flying.toNat

namespace Tallies

variable {j : QueueJournal} {waiting arrived : List ByteArray} {chunk : ByteArray} {flying : Bool}

theorem arrive (h : Tallies j waiting arrived flying) :
    Tallies j (waiting ++ [chunk]) (arrived ++ [chunk]) flying := by
  refine ⟨?_, h.single, h.airborne, h.balance⟩
  rw [← h.conserved, List.append_assoc]

theorem offered_append (h : Tallies j (chunk :: waiting) arrived flying) (accepted : Bool) :
    offers (.offered chunk accepted :: j) ++ waiting = arrived := by
  rw [offers_offered, List.append_assoc]
  exact h.conserved

theorem accept (h : Tallies j (chunk :: waiting) arrived false) :
    Tallies (.offered chunk true :: j) waiting arrived true := by
  refine ⟨h.offered_append true, ⟨h.airborne, h.single⟩, rfl, ?_⟩
  have hbalance : j.accepted = j.awaited := h.balance
  have haccepted : accepted (.offered chunk true :: j) = j.accepted + 1 := List.countP_cons_of_pos rfl
  rw [haccepted, hbalance]
  rfl

theorem refuse (h : Tallies j (chunk :: waiting) arrived false) :
    Tallies (.offered chunk false :: j) waiting arrived false :=
  ⟨h.offered_append false, h.single, h.airborne, h.balance⟩

theorem land (h : Tallies j waiting arrived true) :
    Tallies (.reported true :: j) waiting arrived false := by
  refine ⟨h.conserved, h.single, rfl, ?_⟩
  have hawaited : awaited (.reported true :: j) = j.awaited + 1 := List.countP_cons_of_pos rfl
  rw [hawaited]
  exact h.balance

theorem overhear (h : Tallies j waiting arrived flying) :
    Tallies (.reported false :: j) waiting arrived flying :=
  ⟨h.conserved, h.single, h.airborne, h.balance⟩

end Tallies

end QueueJournal

namespace Sink

/-- A sink together with a record of what it is offered. -/
def recorded (sink : Sink τ) : Sink (τ × QueueJournal) where
  append := fun (world, j) chunk =>
    let (answer, world) := sink.append world chunk
    (answer, world, .offered chunk (answer = .accepted) :: j)
  release := fun (world, j) => (sink.release world, .released :: j)

theorem recorded_append {sink : Sink τ} {world world' : τ} {chunk : ByteArray} {answer : Answer}
    (h : sink.append world chunk = (answer, world')) (j : QueueJournal) :
    sink.recorded.append (world, j) chunk =
      (answer, world', .offered chunk (answer = .accepted) :: j) := by
  simp only [recorded, h]

/-- It accepts or refuses, for whatever reason, and never breaks down. -/
def Steady (sink : Sink τ) : Prop := ∀ world chunk, (sink.append world chunk).1 ≠ .crashed

end Sink

/-- What somebody does to a queue. -/
inductive QueueDeed (τ : Type) where
  | enqueue (chunk : ByteArray)
  | finish (rejection : Option String)
  | destroy
  /-- Something happens to the surroundings of the sink. -/
  | touch (change : τ → τ)

def QueueDeed.chunk? : QueueDeed τ → Option ByteArray
  | .enqueue chunk => some chunk
  | _ => none

theorem QueueDeed.chunks_cons (deed : QueueDeed τ) (deeds : List (QueueDeed τ)) :
    (deed :: deeds).filterMap chunk? = deed.chunk?.toList ++ deeds.filterMap chunk? := by
  cases hc : deed.chunk? <;> simp [hc]

structure QueueCourse (τ : Type) where
  queue : AppendQueue
  world : τ
  journal : QueueJournal

namespace QueueCourse

def start (codecs : Codecs) (generation : Nat) (world : τ) : QueueCourse τ :=
  ⟨.create codecs generation, world, []⟩

def ofProgress (p : AppendQueue.Progress (τ × QueueJournal)) : QueueCourse τ :=
  ⟨p.queue, p.world.1, p.world.2⟩

def perform (sink : Sink τ) (c : QueueCourse τ) : QueueDeed τ → QueueCourse τ
  | .enqueue chunk =>
    ofProgress (c.queue.enqueue sink.recorded chunk (c.world, c.journal))
  | .finish rejection =>
    ofProgress (c.queue.finish sink.recorded rejection
      (c.world, .reported (c.queue.state = .appending) :: c.journal))
  | .destroy =>
    let (queue, (world, journal), summary) := c.queue.destroy sink.recorded (c.world, c.journal)
    ⟨queue, world, summary.toList.map .ended ++ journal⟩
  | .touch change => { c with world := change c.world }

def run (sink : Sink τ) (c : QueueCourse τ) (deeds : List (QueueDeed τ)) : QueueCourse τ :=
  deeds.foldl (perform sink) c

/-- A queue that is in use, after so much has arrived: it is idle and nothing waits, or a chunk is in
flight. -/
inductive Working (c : QueueCourse τ) (arrived : List ByteArray) : Prop where
  | idle (hs : c.queue.state = .idle) (hp : c.queue.pending = [])
      (h : c.journal.Tallies [] arrived false)
  | appending (hs : c.queue.state = .appending)
      (h : c.journal.Tallies c.queue.pending arrived true)

namespace Working

variable {sink : Sink τ} {c : QueueCourse τ} {arrived : List ByteArray}

theorem start (codecs : Codecs) (generation : Nat) (world : τ) :
    (QueueCourse.start codecs generation world).Working [] :=
  .idle rfl rfl ⟨rfl, trivial, rfl, rfl⟩

theorem offer (hsink : sink.Steady) {j : QueueJournal} {waiting : List ByteArray} (q : AppendQueue)
    (world : τ) (h : j.Tallies waiting arrived false) :
    (ofProgress (q.offer sink.recorded (world, j) waiting)).Working arrived := by
  -- Each refusal makes the queue try the next chunk, with one entry more in the journal.
  induction waiting generalizing q world j with
  | nil => exact .idle rfl rfl h
  | cons chunk waiting ih =>
    have hsteady := hsink world chunk
    cases ha : sink.append world chunk with
    | mk answer world' =>
      rw [ha] at hsteady
      rw [AppendQueue.offer, Sink.recorded_append ha]
      cases answer with
      | accepted => exact .appending rfl h.accept
      | refused why => exact ih _ _ h.refuse
      | crashed => exact absurd rfl hsteady

theorem enqueue (hsink : sink.Steady) (h : c.Working arrived) (chunk : ByteArray) :
    (c.perform sink (.enqueue chunk)).Working (arrived ++ [chunk]) := by
  cases h with
  | idle hs hp h =>
    rw [perform, AppendQueue.enqueue_of_idle hs, hp]
    exact offer hsink c.queue c.world h.arrive
  | appending hs h =>
    rw [perform, AppendQueue.enqueue_of_appending hs]
    exact .appending hs h.arrive

theorem finish (hsink : sink.Steady) (h : c.Working arrived) (rejection : Option String) :
    (c.perform sink (.finish rejection)).Working arrived := by
  cases h with
  | idle hs hp h =>
    rw [perform, AppendQueue.finish_of_idle hs, hs]
    exact .idle hs hp h.overhear
  | appending hs h =>
    rw [perform, AppendQueue.finish_of_appending hs, hs]
    exact offer hsink _ c.world h.land

theorem perform {deed : QueueDeed τ} (hsink : sink.Steady) (h : c.Working arrived)
    (hd : deed ≠ .destroy) : (c.perform sink deed).Working (arrived ++ deed.chunk?.toList) := by
  have hsame : arrived ++ (none : Option ByteArray).toList = arrived := List.append_nil arrived
  cases deed with
  | enqueue chunk => exact h.enqueue hsink chunk
  | finish rejection => exact hsame.symm ▸ h.finish hsink rejection
  | destroy => exact absurd rfl hd
  | touch change =>
    refine hsame.symm ▸ ?_
    cases h with
    | idle hs hp h => exact .idle hs hp h
    | appending hs h => exact .appending hs h

theorem run {deeds : List (QueueDeed τ)} (hsink : sink.Steady) (h : c.Working arrived)
    (hd : ∀ d ∈ deeds, d ≠ .destroy) :
    (c.run sink deeds).Working (arrived ++ deeds.filterMap QueueDeed.chunk?) := by
  induction deeds generalizing c arrived with
  | nil =>
    rw [List.filterMap_nil, List.append_nil]
    exact h
  | cons deed deeds ih =>
    have hfirst := h.perform hsink (hd deed (.head _))
    have hrest := ih hfirst fun d hm => hd d (.tail _ hm)
    rw [QueueDeed.chunks_cons, ← List.append_assoc]
    exact hrest

end Working

end QueueCourse

/-- A queue keeps every chunk: what its sink was offered, followed by what waits, is what arrived.
Between two chunks that are accepted there is a report; a chunk is in flight as long as one more was
accepted than was reported on; and only then does anything wait. -/
theorem queue_conserves_chunks {sink : Sink τ} (hsink : sink.Steady) (codecs : Codecs)
    (generation : Nat) (world : τ) (deeds : List (QueueDeed τ)) (hd : ∀ d ∈ deeds, d ≠ .destroy) :
    let c := (QueueCourse.start codecs generation world).run sink deeds
    c.journal.offers ++ c.queue.pending = deeds.filterMap QueueDeed.chunk? ∧
      (∀ (later between earlier : QueueJournal) (chunk chunk' : ByteArray),
        c.journal = later ++ .offered chunk' true :: (between ++ .offered chunk true :: earlier) →
          .reported true ∈ between) ∧
      (c.queue.state = .appending ↔ c.journal.accepted = c.journal.awaited + 1) ∧
      (c.queue.state = .idle ↔ c.journal.accepted ≠ c.journal.awaited + 1) ∧
      (c.queue.pending ≠ [] → c.queue.state = .appending) := by
  intro c
  have hworking : c.Working (deeds.filterMap QueueDeed.chunk?) :=
    (QueueCourse.Working.start codecs generation world).run hsink hd
  have hreported (hsingle : c.journal.SingleFlight) (later between earlier : QueueJournal)
      (chunk chunk' : ByteArray)
      (hj : c.journal = later ++ .offered chunk' true :: (between ++ .offered chunk true :: earlier)) :
      .reported true ∈ between := by
    rw [hj] at hsingle
    exact hsingle.reported_mem
  cases hworking with
  | idle hs hp h =>
    have hbalance : c.journal.accepted = c.journal.awaited := h.balance
    exact ⟨hp ▸ h.conserved, hreported h.single, by simp [hs, hbalance], by simp [hs, hbalance],
      by simp [hp]⟩
  | appending hs h =>
    have hbalance : c.journal.accepted = c.journal.awaited + 1 := h.balance
    exact ⟨h.conserved, hreported h.single, by simp [hs, hbalance], by simp [hs, hbalance],
      fun _ => hs⟩

theorem Rehearsal.ScriptedSink.steady : Rehearsal.ScriptedSink.sink.Steady := by
  intro s chunk
  simp only [Rehearsal.ScriptedSink.sink]
  split <;> nofun

/-- Of six chunks two are refused while the queue drains and one waits; a report comes while nothing
is in flight, and another one is a rejection. -/
theorem queue_conserves_chunks_of_refusals :
    let chunk (c : Char) : ByteArray := (String.singleton c).toUTF8
    let deeds : List (QueueDeed Rehearsal.ScriptedSink) :=
      [.finish none, .enqueue (chunk 'a'), .enqueue (chunk 'b'), .enqueue (chunk 'c'),
        .enqueue (chunk 'd'), .touch fun s => { s with refusedPrefixes := [chunk 'b', chunk 'c'] },
        .finish (some "late"), .enqueue (chunk 'e'), .finish none, .enqueue (chunk 'f')]
    let c := (QueueCourse.start ⟨"avc1", by decide +kernel⟩ 1 ⟨[], false, false, []⟩).run
      Rehearsal.ScriptedSink.sink deeds
    Rehearsal.ScriptedSink.sink.Steady ∧ (∀ d ∈ deeds, d ≠ .destroy) ∧
      c.journal.accepted = 3 ∧ c.queue.pending = [chunk 'f'] ∧
      c.journal.offers ++ c.queue.pending = deeds.filterMap QueueDeed.chunk? :=
  ⟨Rehearsal.ScriptedSink.steady, by simp, by decide +kernel, by decide +kernel,
    (queue_conserves_chunks Rehearsal.ScriptedSink.steady _ _ _ _ (by simp)).1⟩

end LivePlayback
