import LivePlayback.Proofs.Session.Soundness
import LivePlayback.Rehearsal.Stage

/-!
# Terminality

A session that was asked to stop winds up: nothing is started, handled or offered any more, and its
listeners hear that it stopped and nothing else. A handler during which its surface asks for the
stop is completed. One thing more can come in between: a connector or transport that is asked for
its answer may have the session stopped and answer at once, and then the fate of the connection is
reported first.
-/

namespace LivePlayback
set_option autoImplicit false

open Supervisor

variable {σ : Type}

/-- Entries of a session at work. -/
def Entry.working : Entry → Bool
  | .received _ | .asked _ | .created _ _ | .offered _ _ _ | .finished _ _ | .connecting _ _
  | .metadata _ | .armed _ _ | .sought _ => true
  | _ => false

/-- What grows from a journal to a later one is no work, and tells these events. -/
def Journal.WindsTo (j j' : Journal) (events : List Event) : Prop :=
  ∃ later, j' = later ++ j ∧ (∀ e ∈ later, e.working = false) ∧ Journal.events later = events

namespace Journal.WindsTo

variable {j j₁ j₂ : Journal} {events events' : List Event} {e : Entry}

theorem refl (j : Journal) : j.WindsTo j [] := ⟨[], rfl, nofun, rfl⟩

theorem trans (h : j.WindsTo j₁ events) (h' : j₁.WindsTo j₂ events') :
    j.WindsTo j₂ (events ++ events') := by
  obtain ⟨later, hj, hw, he⟩ := h
  obtain ⟨later', hj', hw', he'⟩ := h'
  refine ⟨later' ++ later, by rw [hj', hj, List.append_assoc], fun e hm => ?_, ?_⟩
  · rcases List.mem_append.mp hm with hm | hm
    · exact hw' e hm
    · exact hw e hm
  · rw [← he, ← he']
    simp [Journal.events, select]

theorem quiet (hw : e.working = false) (he : e.event? = none) : j.WindsTo (e :: j) [] :=
  ⟨[e], rfl, by simpa using hw, by simp [Journal.events, select, he]⟩

theorem event (event : Event) : j.WindsTo (.event event :: j) [event] :=
  ⟨[.event event], rfl, by simp [Entry.working], rfl⟩

theorem ofNotices (ns : List Notice) : j.WindsTo (.ofNotices ns ++ j) [] := by
  refine ⟨.ofNotices ns, rfl, fun e he => ?_, ?_⟩
  · obtain ⟨n, _, rfl⟩ := mem_ofNotices_iff.mp he
    rfl
  · simp only [Journal.events, select, List.reverse_eq_nil_iff, List.filterMap_eq_nil_iff]
    intro e he
    obtain ⟨n, _, rfl⟩ := mem_ofNotices_iff.mp he
    rfl

end Journal.WindsTo

namespace Supervisor

/-- A session does no work on the way, and does not forget a stop. -/
structure Winds (s s' : Supervisor σ) (events : List Event) : Prop where
  journal : s.journal.WindsTo s'.journal events
  stopped : s.stopRequested = true → s'.stopRequested = true

namespace Winds

variable {out : Surface σ} {s s₁ s₂ : Supervisor σ} {events events' : List Event} {now : Nat}

theorem trans (h : Winds s s₁ events) (h' : Winds s₁ s₂ events') :
    Winds s s₂ (events ++ events') :=
  ⟨h.journal.trans h'.journal, fun hr => h'.stopped (h.stopped hr)⟩

theorem congr (hj : s₁.journal = s.journal) (hr : s₁.stopRequested = s.stopRequested) :
    Winds s s₁ [] :=
  ⟨hj ▸ .refl _, fun h => hr.trans h⟩

theorem refl (s : Supervisor σ) : Winds s s [] := congr rfl rfl

theorem entry {e : Entry} (hj : s₁.journal = e :: s.journal)
    (hr : s₁.stopRequested = s.stopRequested) (hw : e.working = false) (he : e.event? = none) :
    Winds s s₁ [] :=
  ⟨hj ▸ .quiet hw he, fun h => hr.trans h⟩

theorem emit (event : Event) : Winds s (s.emit event) [event] := ⟨.event event, id⟩

theorem destroyQueue (s : Supervisor σ) : Winds s (s.destroyQueue out) [] := by
  refine ⟨?_, (Abreast.destroyQueue out s).stopped⟩
  rcases destroyQueue_cases out s with h | ⟨q, _, h⟩ <;> rw [h]
  · exact .refl _
  · have hreleased : s.journal.WindsTo (.released q.generation :: s.journal) [] := .quiet rfl rfl
    exact (hreleased.trans (.ofNotices _)).trans (.quiet rfl rfl)

theorem dropTransport (s : Supervisor σ) : Winds s s.dropTransport [] := by
  unfold Supervisor.dropTransport
  split
  · exact refl s
  · exact ⟨.quiet rfl rfl, id⟩

theorem setState (s : Supervisor σ) (state : SessionState) : Winds s (s.setState state) [] := by
  unfold Supervisor.setState
  split
  · exact refl s
  · exact ⟨.quiet rfl rfl, id⟩

theorem crash (s : Supervisor σ) : Winds s (s.crash out) [] := by
  have hdestroyed : Winds s (s.dropTransport.destroyQueue out) [] :=
    (dropTransport s).trans (destroyQueue _)
  exact ⟨hdestroyed.journal, hdestroyed.stopped⟩

theorem unload (s : Supervisor σ) :
    Winds s ({ s with timer := s.timer.cancel }.destroyQueue out) [] := by
  have hcancel : Winds s { s with timer := s.timer.cancel } [] := congr rfl rfl
  exact hcancel.trans (destroyQueue _)

theorem finish (hs : s.state ≠ .destroyed) : Winds s (s.finish out) [.stopped] := by
  let d : Supervisor σ := { s with timer := s.timer.cancel }.destroyQueue out
  have hstopped : Winds d ((d.setState .destroyed).emit .stopped) [.stopped] :=
    (setState d .destroyed).trans (emit .stopped)
  have hterminal : d.state.terminal = false := by simp [d, SessionState.terminal, hs]
  have hfinish : s.finish out = { (d.setState .destroyed).emit .stopped with
      phase := .ended }.note (.ended (d.setState .destroyed).totals) := by
    change ({ (if d.state.terminal then d else (d.setState .destroyed).emit .stopped) with
      phase := .ended } : Supervisor σ).note _ = _
    rw [hterminal]
    rfl
  rw [hfinish]
  exact ((unload s).trans hstopped).trans (entry rfl rfl rfl rfl)

theorem teardown (hs : s.state ≠ .destroyed) : Winds s (s.teardown out now)
    (if (s.teardown out now).phase = .ended then [.stopped] else []) := by
  let d : Supervisor σ := { s with timer := s.timer.cancel }.destroyQueue out
  cases ht : d.transport with
  | none =>
    have hteardown : s.teardown out now = d.finish out := by simp only [Supervisor.teardown, d, ht]
    rw [hteardown, if_pos (by rfl)]
    exact (unload s).trans (finish (by simpa [d] using hs))
  | some attempt =>
    have hteardown : s.teardown out now =
        { d with phase := .closing (d.config.closeTimeout.after now) }.note (.closing attempt) := by
      simp only [Supervisor.teardown, d, ht]
    rw [hteardown, if_neg nofun]
    exact (unload s).trans (entry rfl rfl rfl rfl)

/-- Stopped before, a session that loses its transport tells of the loss all the same. -/
theorem lose (out : Surface σ) (now : Nat) (why : Option Fault) (hs : s.state ≠ .destroyed)
    (hr : s.stopRequested = true) : (s.lose out now why).phase = .ended ∧
    Winds s (s.lose out now why) [.disconnected (why.map Fault.message), .stopped] := by
  let d : Supervisor σ :=
    (s.dropTransport.destroyQueue out).emit (.disconnected (why.map Fault.message))
  have hdrop : Winds s d [.disconnected (why.map Fault.message)] :=
    ((dropTransport s).trans (destroyQueue _)).trans (emit _)
  have hhalted : d.halted = true := by simp [halted, hdrop.stopped hr]
  have hlose : s.lose out now why = d.finish out := by
    change (if d.halted then d.finish out else _) = _
    rw [if_pos hhalted]
  rw [hlose]
  exact ⟨rfl, hdrop.trans (finish (by simpa [d, Supervisor.emit, Supervisor.note] using hs))⟩

end Winds

end Supervisor

/-- What is told of an input even if a stop comes with it: how a connect went, and that a connection
is lost. -/
def Input.news (url : String) : Input → List Event
  | .connected => [.connected url]
  | .connectFailed why | .received (.failed why) => [.disconnected (some why.message)]
  | .received .closed => [.disconnected none]
  | _ => []

namespace Supervisor

variable {s : Supervisor σ} {now : Nat} {i : Input}

theorem Winds.handle (out : Surface σ) (hi : Sound.Comes s now i) (hr : s.stopRequested = true) :
    Winds s (s.handle out now i)
      (i.news s.url ++ if (s.handle out now i).phase = .ended then [.stopped] else []) := by
  have hhalted : s.halted = true := by simp [halted, hr]
  cases hi with
  | begin _ hs =>
    rw [Supervisor.handle, connect, if_pos hhalted]
    exact teardown hs
  | stop hp hs =>
    have hs : s.state ≠ .destroyed := hs.elim (by simp +contextual) And.right
    rw [Supervisor.handle, abandonConnect]
    split
    · have habandoned : Winds s (s.note (.abandoned s.totals.connects)) [] :=
        entry rfl rfl rfl rfl
      exact habandoned.trans (teardown hs)
    · exact teardown hs
  | reconnect _ hs =>
    let fired : Supervisor σ := { s with timer := s.timer.cancel }.note (.fired now)
    have hfired : Winds s fired [] := entry rfl rfl rfl rfl
    have hhandle : s.handle out now .reconnect = fired.teardown out now := by
      have hhalted : fired.halted = true := hhalted
      rw [Supervisor.handle, connect, if_pos hhalted]
    rw [hhandle]
    exact hfired.trans (teardown hs)
  | notice hp =>
    have hhalted : { s with notices := s.notices.tail }.halted = true := hhalted
    rw [Supervisor.handle, handleNotice, if_pos hhalted, if_neg (by simp [hp])]
    exact congr rfl rfl
  | connected =>
    -- The only case in which a stopped session goes on; the stop is what it handles next.
    let o : Supervisor σ := { s with
      phase := .waiting, transport := some s.totals.connects }.note (.opened s.totals.connects)
    have hopen : Winds s o [] := entry rfl rfl rfl rfl
    have hopened : Winds s s.opened [.connected s.url] :=
      (hopen.trans (setState o .opened)).trans (emit _)
    rw [Supervisor.handle, if_neg (by simp [opened, Supervisor.emit, Supervisor.note])]
    exact hopened
  | connectFailed why _ hs =>
    have hfailed : Winds s (s.note (.connectFailed s.totals.connects)) [] := entry rfl rfl rfl rfl
    obtain ⟨hphase, hlost⟩ :=
      lose (s := s.note (.connectFailed s.totals.connects)) out now (some why) hs hr
    rw [Supervisor.handle, if_pos hphase]
    exact hfailed.trans hlost
  | received r hp hs =>
    cases r with
    | frame f =>
      rw [Supervisor.handle, handleFrame, if_pos hhalted, if_neg (by simp [hp])]
      exact refl s
    | closed =>
      obtain ⟨hphase, hlost⟩ := lose out now none hs hr
      rw [Supervisor.handle, if_pos hphase]
      exact hlost
    | failed why =>
      obtain ⟨hphase, hlost⟩ := lose out now (some why) hs hr
      rw [Supervisor.handle, if_pos hphase]
      exact hlost
  | closed _ _ hs =>
    rw [Supervisor.handle, endClosing, if_pos (by rfl)]
    exact (dropTransport s).trans (finish (by simpa using hs))
  | broken =>
    rw [Supervisor.handle, if_neg (by simp [Supervisor.crash])]
    exact crash s

end Supervisor

/-- How many inputs are to be handled at most before a stopped session is over. -/
def Supervisor.remaining (s : Supervisor σ) : Nat :=
  match s.phase with
  | .spawned | .connecting | .waiting => 2
  | .closing _ => 1
  | .ended | .crashed => 0

/-- What is still handled once a stop was asked for. -/
inductive LastInput (s : Supervisor σ) : Input → Prop where
  | begin (hp : s.phase = .spawned) : LastInput s .begin
  | stop (hp : s.phase = .connecting ∨ s.phase = .waiting) : LastInput s .stop
  | closed {deadline : Nat} (hp : s.phase = .closing deadline) : LastInput s .closed
  | broken {deadline : Nat} (hp : s.phase = .closing deadline) : LastInput s .broken

namespace Moment

variable {m m₁ m' : Moment σ}

/-- What is told of the end of a session between two moments. -/
def farewell (m m' : Moment σ) : List Event :=
  if m.supervisor.phase ≠ .ended ∧ m'.supervisor.phase = .ended then [.stopped] else []

theorem farewell_of_phase (h : m'.supervisor.phase = m.supervisor.phase) : m.farewell m' = [] := by
  simp [farewell, h]

theorem farewell_trans (h : m.supervisor.phase = .ended → m₁.supervisor.phase = .ended)
    (h' : m₁.supervisor.phase = .ended → m'.supervisor.phase = .ended) :
    m.farewell m₁ ++ m₁.farewell m' = m.farewell m' := by
  by_cases he : m.supervisor.phase = .ended <;>
    by_cases he₁ : m₁.supervisor.phase = .ended <;> simp_all [farewell]

end Moment

namespace Supervisor

variable {s : Supervisor σ} {i : Input}

theorem stopIf_of_stopped (hr : s.stopRequested = true) (stop : Bool) : s.stopIf stop = s := by
  cases stop with
  | false => rfl
  | true =>
    change { s with stopRequested := true } = s
    rw [← hr]

theorem remaining_teardown (out : Surface σ) (now : Nat) (s : Supervisor σ) :
    (s.teardown out now).remaining < 2 ∧ (s.teardown out now).phase ≠ .crashed := by
  unfold teardown
  simp only
  split <;> simp [remaining, finish, note]

/-- Whatever is still handled brings the end nearer, and unless the transport breaks down the
session ends well. -/
theorem handle_lastInput (out : Surface σ) (now : Nat) (hi : LastInput s i)
    (hr : s.stopRequested = true) : (s.handle out now i).remaining < s.remaining ∧
    ((s.handle out now i).phase = .crashed → i = .broken) := by
  have hteardown (s' : Supervisor σ) (h2 : s.remaining = 2) :
      (s'.teardown out now).remaining < s.remaining ∧
        ((s'.teardown out now).phase = .crashed → i = .broken) := by
    obtain ⟨hless, hphase⟩ := remaining_teardown out now s'
    exact ⟨h2 ▸ hless, fun hc => absurd hc hphase⟩
  cases hi with
  | begin hp =>
    rw [handle, connect, if_pos (by simp [halted, hr])]
    exact hteardown s (by simp [remaining, hp])
  | stop hp =>
    have h2 : s.remaining = 2 := by rcases hp with hp | hp <;> simp [remaining, hp]
    exact hteardown _ h2
  | closed hp => simp [remaining, handle, endClosing, finish, note, hp]
  | broken hp => exact ⟨by simp [remaining, handle, crash, hp], fun _ => rfl⟩

end Supervisor

namespace Admits

variable {s : Supervisor σ} {now : Nat} {i : Input}

theorem phase_ne (h : Admits s now i) : s.phase ≠ .ended := by
  cases h with
  | stop hp => rcases hp with hp | hp <;> simp [hp]
  | _ => simp [*]

theorem lastInput (h : Admits s now i) (hr : s.stopRequested = true) : LastInput s i := by
  cases h with
  | begin hp => exact .begin hp
  | stop hp => exact .stop hp
  | closed hp => exact .closed hp
  | closeBroken hp => exact .broken hp
  | reconnect _ hs | notice _ hs | connected _ hs | connectFailed _ _ hs | received _ _ hs
  | connectBroken _ hs | transportBroken _ hs => simp [hr] at hs

end Admits

open Moment

section

variable {out : Surface σ} {m m' : Moment σ}

/-- What is told while an input is handled after a stop, which may come with the input. -/
theorem Moment.winds_handle {i : Input} {stop : Bool} (hm : Reachable out m)
    (hi : Admits m.supervisor m.now i) (hr : (m.supervisor.stopIf stop).stopRequested = true) :
    Winds m.supervisor (m.handle out i stop).supervisor
      (i.news m.supervisor.url ++ m.farewell (m.handle out i stop)) := by
  have hstop : Winds m.supervisor (m.supervisor.stopIf stop) [] := by
    cases stop with
    | false => exact .refl _
    | true => exact ⟨.refl _, fun _ => rfl⟩
  have hurl : (m.supervisor.stopIf stop).url = m.supervisor.url := by cases stop <;> rfl
  have hfarewell : m.farewell (m.handle out i stop) =
      if (m.handle out i stop).supervisor.phase = .ended then [.stopped] else [] := by
    simp [farewell, hi.phase_ne]
  have hhandle := hstop.trans (.handle out (hm.sound.comes hi stop) hr)
  rw [hurl] at hhandle
  rw [hfarewell]
  exact hhandle

theorem Step.winds (h : Step out m m') (hm : Reachable out m)
    (hr : m.supervisor.stopRequested = true) :
    Winds m.supervisor m'.supervisor (m.farewell m') ∧
      (m.supervisor.phase = .ended → m'.supervisor.phase = .ended) := by
  cases h with
  | pass => exact ⟨farewell_of_phase (m := m) rfl ▸ .refl _, id⟩
  | stop => exact ⟨farewell_of_phase (m := m) rfl ▸ ⟨.refl _, fun _ => rfl⟩, id⟩
  | notify n =>
    have hphase : (m.supervisor.notify n).phase = m.supervisor.phase := by
      unfold Supervisor.notify
      simp only
      split <;> rfl
    have hnotify : Winds m.supervisor (m.supervisor.notify n) [] := by
      unfold Supervisor.notify
      simp only
      split <;> exact .entry rfl rfl rfl rfl
    have hfarewell : m.farewell (m.update (Supervisor.notify · n)) = [] := farewell_of_phase hphase
    exact ⟨hfarewell ▸ hnotify, fun he => hphase.trans he⟩
  | touch x => exact ⟨farewell_of_phase (m := m) rfl ▸ .congr rfl rfl, id⟩
  | @handle i stop hi =>
    -- After a stop a connector or a transport is asked for nothing but to close.
    have hnews : i.news m.supervisor.url = [] := by
      cases hi.lastInput hr <;> rfl
    have hwinds := winds_handle hm hi (stopIf_stopRequested _ stop hr)
    rw [hnews] at hwinds
    exact ⟨hwinds, fun he => absurd he hi.phase_ne⟩

theorem Run.winds (h : Run out m m') (hm : Reachable out m)
    (hr : m.supervisor.stopRequested = true) :
    Winds m.supervisor m'.supervisor (m.farewell m') ∧
      (m.supervisor.phase = .ended → m'.supervisor.phase = .ended) := by
  induction h with
  | refl => exact ⟨farewell_of_phase (m := m) rfl ▸ .refl _, id⟩
  | @tail m₁ m' hrun hstep ih =>
    obtain ⟨hwinds, hended⟩ := ih
    obtain ⟨hwinds', hended'⟩ := hstep.winds (hm.run hrun) (hwinds.stopped hr)
    exact ⟨farewell_trans hended hended' ▸ hwinds.trans hwinds', fun he => hended' (hended he)⟩

end

/-- How a session comes to be stopped: on the way to a moment, or by whoever gives an input, while
it is given. The events are what is told of this input all the same. -/
inductive StoppedIn (out : Surface σ) (m : Moment σ) : List Event → Moment σ → Prop where
  | already (hr : m.supervisor.stopRequested = true) : StoppedIn out m [] m
  | meanwhile {i : Input} (hi : Admits m.supervisor m.now i) :
      StoppedIn out m (i.news m.supervisor.url) (m.handle out i true)

/-- How a session goes on from a stop. -/
structure WindsUp (out : Surface σ) (m m' : Moment σ) (told : List Event) : Prop where
  /-- No work is done, and of all further events there is one when the session ends. -/
  later : m.journal.WindsTo m'.journal (told ++ m.farewell m')
  destroyed : m'.supervisor.state = .destroyed ↔ m'.supervisor.phase = .ended
  forever : m'.supervisor.phase = .ended →
    ∀ m'', Run out m' m'' → m''.supervisor.state = .destroyed
  /-- Until it is over there is something to handle, or a transport closes. -/
  next : m'.supervisor.isOver = false → (∃ i, m'.supervisor.turn m'.now = .take i) ∨
    m'.supervisor.turn m'.now = .ask .close ∧ ∃ deadline, m'.supervisor.phase = .closing deadline
  /-- Whatever is handled brings the end nearer, which is a good one unless the transport breaks
  down. -/
  progress : ∀ i stop, Admits m'.supervisor m'.now i →
    (m'.handle out i stop).supervisor.remaining < m'.supervisor.remaining ∧
      ((m'.handle out i stop).supervisor.phase = .crashed → i = .broken)

theorem stopped_session_winds_up {out : Surface σ} {m m₁ m' : Moment σ} {told : List Event}
    (hm : Reachable out m) (hs : StoppedIn out m told m₁) (h : Run out m₁ m') :
    WindsUp out m m' told := by
  have hstopped : Reachable out m₁ ∧ Winds m.supervisor m₁.supervisor (told ++ m.farewell m₁) ∧
      m₁.supervisor.stopRequested = true ∧
      (m.supervisor.phase = .ended → m₁.supervisor.phase = .ended) := by
    cases hs with
    | already hr => exact ⟨hm, by simpa [farewell] using Winds.refl _, hr, id⟩
    | meanwhile hi =>
      have hcomes := hm.sound.comes hi true
      exact ⟨hm.step (.handle true hi), winds_handle hm hi rfl,
        (Winds.handle out hcomes rfl).stopped rfl, fun he => absurd he hi.phase_ne⟩
  obtain ⟨hm₁, hwinds, hr, hended⟩ := hstopped
  obtain ⟨hwinds', hended'⟩ := h.winds hm₁ hr
  have hm' : Reachable out m' := hm₁.run h
  have hr' : m'.supervisor.stopRequested = true := hwinds'.stopped hr
  refine ⟨?_, hm'.sound.destroyed_iff, ?_, ?_, ?_⟩
  · have hlater := (hwinds.trans hwinds').journal
    rwa [List.append_assoc, farewell_trans hended hended'] at hlater
  · intro he m'' h'
    obtain ⟨_, hstay⟩ := h'.winds hm' hr'
    exact (hm'.run h').sound.destroyed_iff.mpr (hstay he)
  · intro ho
    unfold Supervisor.turn
    cases hp : m'.supervisor.phase with
    | spawned => exact .inl ⟨.begin, rfl⟩
    | connecting | waiting => exact .inl ⟨.stop, by simp [hr']⟩
    | closing deadline => exact .inr ⟨rfl, deadline, rfl⟩
    | ended | crashed => simp [isOver, hp] at ho
  · intro i stop hi
    have hhandle := handle_lastInput out m'.now (hi.lastInput hr') hr'
    rwa [Moment.handle, Moment.update, stopIf_of_stopped hr']

/-- A connector that has the session stopped and opens the connection all the same. -/
theorem stopped_session_winds_up_of_connect :
    let out := Rehearsal.Stage.surface
    let m := Moment.scripted out (.create false) [] 1
    let m' := ((m.handle out .connected true).handle out .stop false).handle out .closed false
    m.journal.events = [] ∧ m'.journal.events = [.connected "ws://camera", .stopped] ∧
      WindsUp out m m' [.connected m.supervisor.url] := by
  intro out m m'
  let m₁ := m.handle out .connected true
  let m₂ := m₁.handle out .stop false
  have hs : StoppedIn out m [.connected m.supervisor.url] m₁ :=
    .meanwhile (.connected (by decide +kernel) (by decide +kernel))
  have hstop : Step out m₁ m₂ :=
    .handle false (.stop (.inr (by decide +kernel)) (by decide +kernel))
  have hclosing : m₂.supervisor.phase = .closing 1000000000 := by decide +kernel
  have hclosed : Step out m₂ m' := .handle false (.closed hclosing)
  have hrun : Run out m₁ m' := (Run.single hstop).trans (.single hclosed)
  exact ⟨by decide +kernel, by decide +kernel,
    stopped_session_winds_up (Moment.reachable_scripted _ _ _ _) hs hrun⟩

end LivePlayback
