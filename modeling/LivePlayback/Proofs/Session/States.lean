import LivePlayback.Proofs.Session.Course
import LivePlayback.Proofs.Session.Passages
import LivePlayback.Rehearsal.Stage
import Mathlib.Data.List.Chain

/-!
# The state of a session

The state that a session shows says what it holds while it waits, and it changes in few ways only.
-/

namespace LivePlayback
set_option autoImplicit false

open Supervisor

variable {σ : Type}

/-- How the state of a session may change. -/
inductive SessionState.Moves : SessionState → SessionState → Prop where
  | begin : Moves .disconnected .connecting
  | opened : Moves .connecting .opened
  | failed : Moves .connecting .reconnectPending
  | lost : Moves .opened .reconnectPending
  | reconnect : Moves .reconnectPending .connecting
  | destroyed {state : SessionState} (h : state ≠ .destroyed) : Moves state .destroyed

open SessionState (Moves)

/-- A course that goes on where another one ends. -/
theorem SessionState.isChain_append {before : SessionState} {shown later : List SessionState}
    (h : (before :: shown).IsChain Moves)
    (h' : (shown.getLastD before :: later).IsChain Moves) :
    (before :: (shown ++ later)).IsChain Moves := by
  obtain ⟨hnext, hlater⟩ := List.isChain_cons.mp h'
  rw [← List.cons_append]
  refine List.isChain_append.mpr ⟨h, hlater, fun x hx y hy => ?_⟩
  rw [List.getLast?_cons, Option.mem_some_iff] at hx
  -- The state shown last is the one before everything, if nothing was shown since.
  rw [← hx, ← List.getLastD_eq_getLast?]
  exact hnext y hy

namespace Supervisor

section Moves

variable {out : Surface σ} {s s' : Supervisor σ} {now : Nat} {i : Input}

theorem Loses.phase_ne {why : Option String} {first : Journal} (h : Loses s i why first) :
    s.phase ≠ .ended := by
  cases h with
  | failed _ hp | closed hp | broken _ hp => simp [hp]

theorem Loses.states {why : Option String} {first : Journal} (h : Loses s i why first) :
    first.states = [] := by
  cases h <;> rfl

theorem Loses.moves {why : Option String} {first : Journal} (hs : Sound s)
    (h : Loses s i why first) : Moves s.state .reconnectPending := by
  cases h with
  | failed _ hp =>
    rw [(hs.of_connecting hp).1]
    exact .failed
  | closed hp ht | broken _ hp ht =>
    rw [(hs.of_open hp (by simp [ht])).1]
    exact .lost

theorem Retires.phase_ne {first : Journal} (h : Retires s now i first) : s.phase ≠ .ended := by
  cases h with
  | lost h => exact h.phase_ne
  | unstarted hp | overdue hp | abandoned hp | idle hp | closed hp => simp [hp]

theorem Retires.states {first : Journal} (h : Retires s now i first) : first.states = [] := by
  cases h with
  | lost h => exact h.states
  | _ => rfl

theorem Passage.moves {phase : Phase} {told : Journal} (hs : Sound s)
    (h : Passage s now i phase told) : (s.state :: told.states).IsChain Moves := by
  cases h with
  | begin hp =>
    rw [(hs.of_spawned hp).1]
    exact .cons_cons .begin (.singleton _)
  | reconnect hp ht =>
    rw [(hs.of_lost hp ht).1]
    exact .cons_cons .reconnect (.singleton _)
  | opened hp =>
    rw [(hs.of_connecting hp).1]
    exact .cons_cons .opened (.singleton _)
  | lost hl =>
    rw [Journal.states_append, hl.states]
    exact .cons_cons (hl.moves hs) (.singleton _)
  | closing => exact .singleton _
  | retired hr =>
    rw [Journal.states_append, hr.states]
    exact .cons_cons (.destroyed (hs.state_ne hr.phase_ne)) (.singleton _)
  | broken =>
    rw [Journal.states_transportDropped]
    exact .singleton _

theorem Handled.moves (hs : Sound s) (h : Handled out s now i s') :
    ∃ shown : List SessionState, s'.journal.states = s.journal.states ++ shown ∧
      s'.state = shown.getLastD s.state ∧ (s.state :: shown).IsChain Moves := by
  cases h with
  | frame _ _ h | notice _ _ h =>
    obtain ⟨hstates, hstate⟩ := h.states
    exact ⟨[], by rw [hstates, List.append_nil], hstate, .singleton _⟩
  | @passage _ _ told h hp => exact ⟨told.states, h.states, h.state, hp.moves hs⟩

end Moves

/-- Whoever watches the state has seen it change as it may, and sees it as it is. -/
structure Watched (s : Supervisor σ) : Prop where
  latest : s.journal.shown .disconnected = s.state
  moves : (.disconnected :: s.journal.states).IsChain Moves

theorem Watched.handled {out : Surface σ} {s s' : Supervisor σ} {now : Nat} {i : Input}
    (hw : s.Watched) (hs : Sound s) (h : Handled out s now i s') : s'.Watched := by
  obtain ⟨shown, hstates, hstate, hmoves⟩ := h.moves hs
  rw [← hw.latest] at hstate hmoves
  constructor
  · rw [Journal.shown, hstates, Journal.getLastD_append, hstate]
    rfl
  · rw [hstates]
    exact SessionState.isChain_append hw.moves hmoves

theorem Watched.idles {s s' : Supervisor σ} (hw : s.Watched) (h : Idles s s') : s'.Watched := by
  constructor
  · rw [Journal.shown, h.states, h.state]
    exact hw.latest
  · rw [h.states]
    exact hw.moves

/-- The queue, if there is one, belongs to the newest announcement. -/
def Current (s : Supervisor σ) : Prop := ∀ q, s.queue = some q → q.generation = s.generation

namespace Current

variable {out : Surface σ} {s s' : Supervisor σ}

theorem of_none (h : s.queue = none) : s.Current := fun _ hq => by cases h.symm.trans hq

theorem congr (h : s.Current) (hg : s'.generation = s.generation)
    (hq : s'.queue.map AppendQueue.generation = s.queue.map AppendQueue.generation) :
    s'.Current := by
  intro q' hq'
  rw [hq'] at hq
  obtain ⟨q, hq, hsame⟩ := Option.map_eq_some_iff.mp hq.symm
  rw [hg, ← hsame]
  exact h q hq

theorem playAct (h : s.Current) (hp : PlayAct out s s') : s'.Current := by
  cases hp with
  | hear hears => exact h.congr hears.generation (by rw [hears.queue])
  | enqueue _ _ hq | accept _ hq | refuse _ hq | finish _ hq => exact h.congr rfl (by simp [hq])
  | install =>
    rintro q ⟨⟩
    rfl
  | decline _ _ hears | falter _ _ hears =>
    exact of_none (hears.queue.trans (destroyQueue_queue out _))
  | seek | malformed | publish | withhold | stray | ignore => exact h.congr rfl rfl

theorem act (h : s.Current) (hact : Act out s s') : s'.Current := by
  cases hact with
  | play hp => exact h.playAct hp
  | breakdown hb =>
    cases hb with
    | mk hq => exact h.congr rfl (by simp [hq])
  | quiet hquiet => exact h.congr hquiet.generation (by rw [hquiet.queue])
  | release => exact of_none rfl
  | retire hq => exact of_none (by simpa [emit, note] using hq)
  | opened | drop | disconnect => exact h.congr rfl rfl

theorem notify (h : s.Current) (n : Notice) : (s.notify n).Current := by
  unfold Supervisor.notify
  simp only
  split <;> exact h.congr rfl rfl

end Current

/-- It has begun and waits: for its connector, or for whatever comes next. -/
def Awaits (s : Supervisor σ) : Prop := s.phase = .connecting ∨ s.phase = .waiting

end Supervisor

theorem Reachable.watched {out : Surface σ} {m : Moment σ} (h : Reachable out m) :
    m.supervisor.Watched :=
  h.keeps (fun _ _ _ _ => ⟨rfl, .singleton _⟩) (fun _ _ hi hw => hw.idles hi)
    fun _ _ _ _ hs hh hw => hw.handled hs hh

theorem Reachable.current {out : Surface σ} {m : Moment σ} (h : Reachable out m) :
    m.supervisor.Current :=
  (h.invariant (P := Current) (fun _ _ _ _ => .of_none rfl) (fun _ _ _ hact h => h.act hact)
    (fun _ n h => h.notify n) fun _ _ h => h).2

/-- A session holds what its state says, and shows the state that it is in. -/
structure Moment.Coherent (m : Moment σ) : Prop where
  /-- As long as nobody stops it, a session that has begun awaits something. -/
  awaits : m.supervisor.stopRequested = false → m.supervisor.phase ≠ .spawned →
    m.supervisor.isOver = false → m.supervisor.Awaits
  inState : m.supervisor.Awaits → m.supervisor.state = .connecting ∨
    m.supervisor.state = .opened ∨ m.supervisor.state = .reconnectPending
  connecting : m.supervisor.Awaits → m.supervisor.state = .connecting →
    m.supervisor.transport = none ∧ m.supervisor.queue = none ∧ m.supervisor.timer.armed = false
  opened : m.supervisor.Awaits → m.supervisor.state = .opened →
    m.supervisor.transport.isSome = true ∧ m.supervisor.timer.armed = false ∧
      ∀ q, m.supervisor.queue = some q →
        q.state ≠ .destroyed ∧ q.generation = m.supervisor.generation
  pending : m.supervisor.Awaits → m.supervisor.state = .reconnectPending →
    m.supervisor.transport = none ∧ m.supervisor.queue = none ∧ m.supervisor.timer.armed = true
  /-- With nothing to handle and nothing to ask for, it has an alarm set that is not due yet. -/
  wakes : m.supervisor.turn m.now = .idle → ∃ deadline, m.supervisor.wakeAt = some deadline ∧
    m.now < deadline
  ended : m.supervisor.phase = .ended → m.supervisor.state = .destroyed ∧
    m.supervisor.transport = none ∧ m.supervisor.queue = none ∧ m.supervisor.timer.armed = false
  latest : m.journal.states.getLastD .disconnected = m.supervisor.state
  moves : (.disconnected :: m.journal.states).IsChain SessionState.Moves

theorem Sound.wakes {s : Supervisor σ} {now : Nat} (h : Sound s) (hi : s.turn now = .idle) :
    ∃ deadline, s.wakeAt = some deadline ∧ now < deadline := by
  unfold turn at hi
  cases hp : s.phase with
  | waiting =>
    simp only [hp] at hi
    split at hi
    · cases hi
    · split at hi
      · cases hi
      · rename_i hdue
        split at hi
        · cases hi
        · split at hi
          · cases hi
          · rename_i ht
            obtain ⟨_, _, harmed⟩ := h.of_lost hp (by simpa using ht)
            obtain ⟨deadline, hd⟩ := Option.isSome_iff_exists.mp harmed
            refine ⟨deadline, by rw [wakeAt, hp]; exact hd, ?_⟩
            simpa [ReconnectTimer.due, hd] using hdue
  | connecting =>
    simp only [hp] at hi
    split at hi <;> cases hi
  | spawned | closing | ended | crashed => simp [hp] at hi

/-- What a session holds that awaits something, state by state. -/
theorem Sound.awaiting {s : Supervisor σ} (h : Sound s) (ha : s.Awaits) :
    (s.state = .connecting ∧ s.Bare) ∨
    (s.state = .opened ∧ s.transport.isSome = true ∧ s.timer.armed = false ∧
      ∀ q, s.queue = some q → q.Ready) ∨
    (s.state = .reconnectPending ∧ s.transport = none ∧ s.queue = none ∧
      s.timer.armed = true) := by
  cases h with
  | connecting _ hs hb => exact .inl ⟨hs, hb⟩
  | playing _ hs ht hq hd => exact .inr (.inl ⟨hs, ht, by simp [ReconnectTimer.armed, hd], hq⟩)
  | pausing _ hs ht hq hd => exact .inr (.inr ⟨hs, ht, hq, hd⟩)
  | spawned hp | closing hp | ended hp | crashed hp => simp [Awaits, hp] at ha

/-- At every moment of every run a session is coherent. -/
theorem session_coherent {out : Surface σ} {m : Moment σ} (h : Reachable out m) :
    m.Coherent := by
  have hsound : Sound m.supervisor := h.sound
  have hbare (hb : m.supervisor.Bare) : m.supervisor.transport = none ∧
      m.supervisor.queue = none ∧ m.supervisor.timer.armed = false :=
    ⟨hb.transport, hb.queue, by simp [ReconnectTimer.armed, hb.disarmed]⟩
  constructor
  case awaits =>
    intro hr hp ho
    cases hsound with
    | spawned hp' => exact absurd hp' hp
    | connecting hp' => exact .inl hp'
    | playing hp' | pausing hp' => exact .inr hp'
    | closing _ hr' => simp [hr] at hr'
    | ended hp' | crashed hp' => simp [isOver, hp'] at ho
  case inState =>
    intro ha
    rcases hsound.awaiting ha with ⟨hs, _⟩ | ⟨hs, _⟩ | ⟨hs, _⟩ <;> simp [hs]
  case connecting =>
    intro ha hs
    rcases hsound.awaiting ha with ⟨_, hb⟩ | ⟨hs', _⟩ | ⟨hs', _⟩
    · exact hbare hb
    · simp [hs] at hs'
    · simp [hs] at hs'
  case opened =>
    intro ha hs
    rcases hsound.awaiting ha with ⟨hs', _⟩ | ⟨_, ht, hd, hq⟩ | ⟨hs', _⟩
    · simp [hs] at hs'
    · exact ⟨ht, hd, fun q hq' => ⟨(hq q hq').alive, h.current q hq'⟩⟩
    · simp [hs] at hs'
  case pending =>
    intro ha hs
    rcases hsound.awaiting ha with ⟨hs', _⟩ | ⟨hs', _⟩ | ⟨_, hpending⟩
    · simp [hs] at hs'
    · simp [hs] at hs'
    · exact hpending
  case wakes => exact hsound.wakes
  case ended =>
    intro hp
    cases hsound with
    | ended _ _ hs hb => exact ⟨hs, hbare hb⟩
    | _ => simp_all
  case latest => exact h.watched.latest
  case moves => exact h.watched.moves

/-- A session that plays, and holds a queue. -/
theorem session_coherent_of_announcement :
    let m := Moment.scripted Rehearsal.Stage.surface (.create false)
      [.frame (FrameTag.codec.build "avc1".toUTF8)] 3
    m.supervisor.stopRequested = false ∧ m.supervisor.phase = .waiting ∧
      m.supervisor.state = .opened ∧ m.supervisor.queue.isSome = true ∧ m.Coherent :=
  ⟨by decide +kernel, by decide +kernel, by decide +kernel, by decide +kernel,
    session_coherent (Moment.reachable_scripted _ _ _ _)⟩

end LivePlayback
