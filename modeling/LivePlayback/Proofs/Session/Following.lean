import LivePlayback.Proofs.Latest.Updates
import LivePlayback.Proofs.Session.Growth
import LivePlayback.Rehearsal.Stage

/-!
# Following the metadata of a session

A session goes on, and a reader follows its metadata, asking whenever it likes. The reader may miss
what is replaced before it looks, or before there is a slot, but never the metadata that is current
at the end.
-/

namespace LivePlayback
set_option autoImplicit false

open Supervisor

variable {σ : Type}

/-- A session and a reader of its metadata. -/
structure Following (σ : Type) where
  moment : Moment σ
  reading : Reading Metadata

namespace Following

/-- All records that were published; the last one is the current metadata. -/
def metadata (w : Following σ) : List Metadata := w.moment.journal.metadata

def SessionOver (w : Following σ) : Prop := w.moment.supervisor.isOver = true

def peek (w : Following σ) : Following σ := { w with reading := w.reading.peek w.metadata }

def poll (w : Following σ) (gone : Bool) : Following σ :=
  { w with reading := w.reading.poll w.moment.now w.metadata gone }

/-- The session goes on, or the reader is asked; between two looks of one asking the session may go
on as well. That a session is over may be noticed late, but not early. -/
inductive Move (out : Surface σ) : Following σ → Following σ → Prop where
  | session {w : Following σ} {m : Moment σ} (h : Step out w.moment m) :
      Move out w { w with moment := m }
  | peek (w : Following σ) : Move out w w.peek
  | poll {w : Following σ} {gone : Bool} (h : gone = true → w.SessionOver) :
      Move out w (w.poll gone)

def Moves (out : Surface σ) : Following σ → Following σ → Prop :=
  Relation.ReflTransGen (Move out)

/-- A session that is over publishes nothing more. -/
theorem metadata_of_over {w : Following σ} {m : Moment σ} {out : Surface σ}
    (h : Step out w.moment m) (ho : w.SessionOver) :
    m.supervisor.isOver = true ∧ m.journal.metadata = w.metadata := by
  obtain ⟨hp, hechoes⟩ := h.of_over ho
  refine ⟨?_, hechoes.select fun _ => rfl⟩
  rw [isOver, hp]
  exact ho

/-- What holds of a session and its reader at any time, if the reader started when `base` records
were there. -/
structure Kept (out : Surface σ) (base : Nat) (w : Following σ) : Prop where
  reachable : Reachable out w.moment
  reading : w.reading.Keeps w.metadata base w.SessionOver

variable {out : Surface σ} {base : Nat} {w w' : Following σ}

namespace Kept

theorem move (h : Kept out base w) (hm : Move out w w') : Kept out base w' := by
  cases hm with
  | session step =>
    refine ⟨h.reachable.step step, h.reading.publish ?_ (metadata_of_over step)⟩
    exact Journal.select_prefix (step.journal_suffix h.reachable) _
  | peek => exact ⟨h.reachable, h.reading.peek⟩
  | poll hg => exact ⟨h.reachable, h.reading.poll w.moment.now hg⟩

theorem moves (h : Kept out base w) (hm : Moves out w w') : Kept out base w' := by
  induction hm with
  | refl => exact h
  | tail _ hm ih => exact ih.move hm

end Kept

/-- A reader that has nothing left to say of a session that is over. -/
structure Done (w : Following σ) : Prop where
  sessionOver : w.SessionOver
  spent : w.reading.updates.Spent w.metadata

namespace Done

theorem poll (h : Done w) (gone : Bool) :
    (w.poll gone).reading.updates = w.reading.updates ∧
      (w.poll gone).reading.given = w.reading.given ∧
      (w.reading.ended = true ∨ gone = true → (w.poll gone).reading.ended = true) := by
  obtain ⟨hupdates, hitem, hend⟩ := h.spent.poll w.moment.now gone
  refine ⟨hupdates, ?_, ?_⟩
  · simp [Following.poll, Reading.poll, hitem]
  · rintro (he | hg)
    · simp [Following.poll, Reading.poll, he]
    · simp [Following.poll, Reading.poll, hend hg]

theorem move (h : Done w) (hm : Move out w w') : Done w' ∧ w'.metadata = w.metadata ∧
    w'.reading.given = w.reading.given ∧ (w.reading.ended = true → w'.reading.ended = true) := by
  cases hm with
  | session step =>
    obtain ⟨hover, hsame⟩ := metadata_of_over step h.sessionOver
    exact ⟨⟨hover, by rw [metadata, hsame]; exact h.spent⟩, hsame, rfl, id⟩
  | peek =>
    have hsame : w.peek = w := by
      rw [peek, Reading.peek, h.spent.takeIn_eq]
    rw [hsame]
    exact ⟨h, rfl, rfl, id⟩
  | @poll gone =>
    obtain ⟨hupdates, hgiven, hended⟩ := h.poll gone
    have hspent : (w.poll gone).reading.updates.Spent w.metadata := hupdates.symm ▸ h.spent
    exact ⟨⟨h.sessionOver, hspent⟩, rfl, hgiven, fun he => hended (.inl he)⟩

theorem moves (h : Done w) (hm : Moves out w w') : Done w' ∧ w'.metadata = w.metadata ∧
    w'.reading.given = w.reading.given ∧ (w.reading.ended = true → w'.reading.ended = true) := by
  induction hm with
  | refl => exact ⟨h, rfl, rfl, id⟩
  | tail _ hm ih =>
    obtain ⟨hdone, hsame, hgiven, hended⟩ := ih
    obtain ⟨hdone', hsame', hgiven', hended'⟩ := hdone.move hm
    exact ⟨hdone', hsame'.trans hsame, hgiven'.trans hgiven, fun he => hended' (hended he)⟩

end Done

/-- How a reader that started when `base` records were there has followed the metadata. -/
structure Faithful (out : Surface σ) (base : Nat) (w : Following σ) : Prop where
  picks : ∃ positions, Picks w.metadata base positions w.reading.given
  /-- It ends only after the session, with the metadata that is current then and stays so. -/
  sessionOver : w.reading.ended = true → w.SessionOver
  last : w.reading.ended = true → w.reading.given.getLast? = w.metadata.getLast?
  final : w.reading.ended = true → ∀ w', Moves out w w' → w'.reading.ended = true ∧
    w'.reading.given = w.reading.given ∧ w'.metadata = w.metadata
  /-- After the session it ends when it is asked for the second time, if not before. -/
  ends : w.SessionOver → ∀ w', Moves out (w.poll true) w' → (w'.poll true).reading.ended = true

/-- The last metadata is never lost, at whatever rate it is read. -/
theorem last_metadata_read {m : Moment σ} {rate : UpdateRate} (hm : Reachable out m)
    (hr : ∀ d, rate.interval = some d → 0 < d.nanos) :
    ∃ u, Updates.ofRate? rate m.now = some u ∧
      ∀ w, Moves out ⟨m, .start u⟩ w → w.Faithful out m.journal.metadata.length := by
  obtain ⟨u, hu, hstart⟩ := Updates.exists_ofRate? hr m.now m.journal.metadata
    (m.supervisor.isOver = true)
  refine ⟨u, hu, fun w hw => ?_⟩
  have hkept : Kept out m.journal.metadata.length w := Kept.moves ⟨hm, hstart⟩ hw
  obtain ⟨hbase, hmet, hfinished, hended⟩ := hkept.reading
  refine ⟨?_, fun he => (hended he).1, ?_, ?_, ?_⟩
  · obtain ⟨positions, hpicks, _⟩ := hmet.picks
    exact ⟨positions.take w.reading.given.length, by simpa using hpicks.take w.reading.given.length⟩
  · intro he
    obtain ⟨hover, hspent⟩ := hended he
    have hseen : w.reading.updates.seen = w.metadata.length :=
      Nat.le_antisymm hmet.le hspent.seen
    rw [hspent.held, hseen, Option.toList_none, List.append_nil] at hmet
    exact hmet.getLast?
  · intro he w' hw'
    obtain ⟨hover, hspent⟩ := hended he
    obtain ⟨_, hsame, hgiven, hended'⟩ := Done.moves ⟨hover, hspent⟩ hw'
    exact ⟨hended' he, hgiven, hsame⟩
  · intro ho w' hw'
    have hdone : Done (w.poll true) := ⟨ho, hkept.reading.spent_poll w.moment.now ho⟩
    exact ((hdone.moves hw').1.poll true).2.2 (.inr rfl)

/-- Of three records the second one is replaced while the next slot is awaited, and the third one
is given out at the end, before its slot. -/
theorem last_metadata_read_of_burst :
    let out := Rehearsal.Stage.surface
    let record (m : Moment Rehearsal.Stage) (json : String) : Moment Rehearsal.Stage :=
      m.handle out (.received (.frame (FrameTag.metadata.build json.toUTF8))) false
    let spawned : Moment Rehearsal.Stage :=
      ⟨0, .spawn "ws://camera" {} (Rehearsal.Stage.create false) false⟩
    let opened := (spawned.handle out .begin false).handle out .connected false
    let first := record opened "\x7b\"fps\": 1\x7d"
    let third := record (record first "\x7b\"fps\": 2\x7d") "\x7b\"fps\": 3\x7d"
    let stopped := third.update requestStop
    let wound := (stopped.handle out .stop false).handle out .closed false
    let updates : Updates Metadata := ⟨0, some ⟨⟨nanosPerSecond, 0⟩, none, false⟩⟩
    let met : Following Rehearsal.Stage := poll ⟨first, .start updates⟩ false
    let held : Following Rehearsal.Stage := poll { met with moment := third } false
    let w := poll (poll { held with moment := wound } true) true
    Updates.ofRate? (.atMost 1) first.now = some updates ∧ w.metadata.length = 3 ∧
      w.reading.given.length = 2 ∧ w.reading.ended = true ∧ w.Faithful out 1 := by
  intro out record spawned opened first third stopped wound updates met held w
  have hrate : UpdateRate.interval (.atMost 1) = some ⟨nanosPerSecond⟩ := by decide +kernel
  have hupdates : Updates.ofRate? (.atMost 1) first.now = some updates := by
    rw [Updates.ofRate?, hrate]
    rfl
  have hopened : Reachable out opened := by
    refine ((Reachable.spawn 0 _ _ _ _).step (.handle false (.begin rfl))).step
      (.handle false (.connected ?_ ?_)) <;> decide +kernel
  have hrecord {m : Moment Rehearsal.Stage} (json : String) (hp : m.supervisor.phase = .waiting)
      (hs : m.supervisor.stopRequested = false) (ht : m.supervisor.transport.isSome = true) :
      Step out m (record m json) := .handle false (.received _ hp hs ht)
  have hfirst : Reachable out first :=
    hopened.step (hrecord _ (by decide +kernel) (by decide +kernel) (by decide +kernel))
  have hmet : Moves out ⟨first, .start updates⟩ met := .single (.poll nofun)
  have hheld : Moves out met held := by
    have hsecond := hrecord (m := first) "\x7b\"fps\": 2\x7d" (by decide +kernel)
      (by decide +kernel) (by decide +kernel)
    have hthird := hrecord (m := record first "\x7b\"fps\": 2\x7d") "\x7b\"fps\": 3\x7d"
      (by decide +kernel) (by decide +kernel) (by decide +kernel)
    have hmoved : Moves out met { met with moment := third } :=
      .head (.session hsecond) (.single (.session hthird))
    exact hmoved.tail (.poll nofun)
  have hended : Moves out held w := by
    have hstopped : Step out third stopped := .stop third
    have hclosing : Step out stopped (stopped.handle out .stop false) :=
      .handle false (.stop (.inr (by decide +kernel)) (by decide +kernel))
    have hphase : (stopped.handle out .stop false).supervisor.phase = .closing nanosPerSecond := by
      decide +kernel
    have hclosed : Step out (stopped.handle out .stop false) wound := .handle false (.closed hphase)
    have hover : wound.supervisor.isOver = true := by decide +kernel
    have hmoved : Moves out held { held with moment := wound } :=
      .head (.session hstopped) (.head (.session hclosing) (.single (.session hclosed)))
    exact (hmoved.tail (.poll fun _ => hover)).tail (.poll fun _ => hover)
  have hmoves : Moves out ⟨first, .start updates⟩ w := (hmet.trans hheld).trans hended
  have hpositive : ∀ d, UpdateRate.interval (.atMost 1) = some d → 0 < d.nanos := by
    intro d hd
    cases hrate.symm.trans hd
    decide
  obtain ⟨u, hu, hfaithful⟩ := last_metadata_read hfirst hpositive
  cases hupdates.symm.trans hu
  have hone : first.journal.metadata.length = 1 := by decide +kernel
  exact ⟨hupdates, by decide +kernel, by decide +kernel, by decide +kernel,
    hone ▸ hfaithful w hmoves⟩

end Following

end LivePlayback
