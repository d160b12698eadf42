import LivePlayback.Proofs.Session.Handlers

/-!
# Soundness

What a session holds in each phase: its transport, its queue, its alarm and the state it shows.
Every reachable moment is sound.
-/

namespace LivePlayback
set_option autoImplicit false

variable {σ : Type}

namespace Supervisor

/-- Nothing is held and nothing is due. -/
structure Bare (s : Supervisor σ) : Prop where
  transport : s.transport = none
  queue : s.queue = none
  disarmed : s.timer.deadline = none

section Projections

variable (out : Surface σ) (s : Supervisor σ) (state : SessionState)

@[simp] theorem destroyQueue_phase : (s.destroyQueue out).phase = s.phase :=
  (Abreast.destroyQueue out s).phase

@[simp] theorem destroyQueue_state : (s.destroyQueue out).state = s.state :=
  (Abreast.destroyQueue out s).state

@[simp] theorem destroyQueue_transport : (s.destroyQueue out).transport = s.transport :=
  (Abreast.destroyQueue out s).transport

@[simp] theorem destroyQueue_timer : (s.destroyQueue out).timer = s.timer :=
  (Abreast.destroyQueue out s).timer

@[simp] theorem destroyQueue_stopRequested (h : s.stopRequested = true) :
    (s.destroyQueue out).stopRequested = true :=
  (Abreast.destroyQueue out s).stopped h

@[simp] theorem setState_state : (s.setState state).state = state := by
  unfold setState
  split
  · assumption
  · rfl

@[simp] theorem setState_phase : (s.setState state).phase = s.phase := by
  unfold setState
  split <;> rfl

@[simp] theorem setState_transport : (s.setState state).transport = s.transport := by
  unfold setState
  split <;> rfl

@[simp] theorem setState_queue : (s.setState state).queue = s.queue := by
  unfold setState
  split <;> rfl

@[simp] theorem setState_timer : (s.setState state).timer = s.timer := by
  unfold setState
  split <;> rfl

@[simp] theorem setState_stopRequested : (s.setState state).stopRequested = s.stopRequested := by
  unfold setState
  split <;> rfl

@[simp] theorem dropTransport_transport : s.dropTransport.transport = none := by
  unfold dropTransport
  split
  · assumption
  · rfl

@[simp] theorem dropTransport_state : s.dropTransport.state = s.state := by
  unfold dropTransport
  split <;> rfl

@[simp] theorem dropTransport_queue : s.dropTransport.queue = s.queue := by
  unfold dropTransport
  split <;> rfl

@[simp] theorem dropTransport_stopRequested : s.dropTransport.stopRequested = s.stopRequested := by
  unfold dropTransport
  split <;> rfl

end Projections

@[simp] theorem setState_totals (s : Supervisor σ) (state : SessionState) :
    (s.setState state).totals = s.totals := by
  unfold setState
  split <;> rfl

/-- The end of a session that has given up its sink already. -/
theorem finish_of_none {out : Surface σ} {s : Supervisor σ} (hq : s.queue = none)
    (hs : s.state ≠ .destroyed) :
    s.finish out = { ({ s with timer := s.timer.cancel }.setState .destroyed).emit .stopped with
      phase := .ended }.note (.ended s.totals) := by
  have hsame : { s with timer := s.timer.cancel }.destroyQueue out =
      { s with timer := s.timer.cancel } := destroyQueue_of_none hq
  have hterminal : s.state.terminal = false := by simp [SessionState.terminal, hs]
  simp only [finish, hsame, hterminal]
  simp [emit, note]

end Supervisor

open Supervisor

section

variable (s : Supervisor σ) (stop : Bool)

@[simp] theorem stopIf_phase : (s.stopIf stop).phase = s.phase := by cases stop <;> rfl

@[simp] theorem stopIf_transport : (s.stopIf stop).transport = s.transport := by
  cases stop <;> rfl

@[simp] theorem stopIf_timer : (s.stopIf stop).timer = s.timer := by cases stop <;> rfl

@[simp] theorem stopIf_notices : (s.stopIf stop).notices = s.notices := by cases stop <;> rfl

@[simp] theorem stopIf_stopRequested (h : s.stopRequested = true) :
    (s.stopIf stop).stopRequested = true := by
  cases stop with
  | false => exact h
  | true => rfl

end

/-- What a session holds between two handlers. -/
inductive Sound (s : Supervisor σ) : Prop where
  | spawned (hp : s.phase = .spawned) (hs : s.state = .disconnected) (hb : s.Bare)
  | connecting (hp : s.phase = .connecting) (hs : s.state = .connecting) (hb : s.Bare)
  | playing (hp : s.phase = .waiting) (hs : s.state = .opened) (ht : s.transport.isSome = true)
      (hq : ∀ q, s.queue = some q → q.Ready) (hd : s.timer.deadline = none)
  | pausing (hp : s.phase = .waiting) (hs : s.state = .reconnectPending) (ht : s.transport = none)
      (hq : s.queue = none) (hd : s.timer.deadline.isSome = true)
  | closing {deadline : Nat} (hp : s.phase = .closing deadline) (hr : s.stopRequested = true)
      (hs : s.state = .opened) (ht : s.transport.isSome = true) (hq : s.queue = none)
      (hd : s.timer.deadline = none)
  | ended (hp : s.phase = .ended) (hr : s.stopRequested = true) (hs : s.state = .destroyed)
      (hb : s.Bare)
  | crashed (hp : s.phase = .crashed) (hs : s.state ≠ .destroyed) (hb : s.Bare)

namespace Sound

variable {out : Surface σ} {s s' : Supervisor σ} {now : Nat}

theorem state_ne (h : Sound s) (hp : s.phase ≠ .ended) : s.state ≠ .destroyed := by
  cases h with
  | spawned _ hs | connecting _ hs | playing _ hs | pausing _ hs | closing _ _ hs => simp [hs]
  | ended hp' => exact absurd hp' hp
  | crashed _ hs => exact hs

theorem destroyed_iff (h : Sound s) : s.state = .destroyed ↔ s.phase = .ended := by
  refine ⟨fun hs => Decidable.byContradiction fun hp => h.state_ne hp hs, fun hp => ?_⟩
  · cases h with
    | ended _ _ hs => exact hs
    | _ => simp_all

theorem halted_iff (hs : s.state ≠ .destroyed) : s.halted = s.stopRequested := by
  simp [halted, SessionState.terminal, hs]

theorem not_halted (h : Sound s) (hp : s.phase ≠ .ended) (hr : s.stopRequested = false) :
    s.halted = false :=
  (halted_iff (h.state_ne hp)).trans hr

/-- Soundness is about what is held, and grows with a stop. -/
theorem congr (h : Sound s) (ha : Abreast s s') (hq : s'.queue = s.queue) : Sound s' := by
  obtain ⟨hphase, hstate, htransport, htimer, _, hr⟩ := ha
  have hbare (hb : s.Bare) : s'.Bare :=
    ⟨htransport.trans hb.transport, hq.trans hb.queue, htimer ▸ hb.disarmed⟩
  cases h with
  | spawned hp hs hb => exact .spawned (hphase.trans hp) (hstate.trans hs) (hbare hb)
  | connecting hp hs hb => exact .connecting (hphase.trans hp) (hstate.trans hs) (hbare hb)
  | playing hp hs ht hready hd =>
    exact .playing (hphase.trans hp) (hstate.trans hs) (htransport ▸ ht) (hq ▸ hready) (htimer ▸ hd)
  | pausing hp hs ht hnone hd =>
    exact .pausing (hphase.trans hp) (hstate.trans hs) (htransport.trans ht) (hq.trans hnone)
      (htimer ▸ hd)
  | closing hp hstop hs ht hnone hd =>
    exact .closing (hphase.trans hp) (hr hstop) (hstate.trans hs) (htransport ▸ ht)
      (hq.trans hnone) (htimer ▸ hd)
  | ended hp hstop hs hb => exact .ended (hphase.trans hp) (hr hstop) (hstate.trans hs) (hbare hb)
  | crashed hp hs hb => exact .crashed (hphase.trans hp) (hstate ▸ hs) (hbare hb)

theorem requestStop (h : Sound s) : Sound s.requestStop :=
  h.congr ⟨rfl, rfl, rfl, rfl, rfl, fun _ => rfl⟩ rfl

theorem stopIf (h : Sound s) (stop : Bool) : Sound (s.stopIf stop) := by
  cases stop with
  | false => exact h
  | true => exact h.requestStop

theorem queue_of_over (h : Sound s) (ho : s.isOver = true) : s.queue = none := by
  have hp : s.phase = .ended ∨ s.phase = .crashed := by simpa [isOver] using ho
  cases h with
  | ended _ _ _ hb | crashed _ _ hb => exact hb.queue
  | _ => simp_all

theorem of_spawned (h : Sound s) (hp : s.phase = .spawned) :
    s.state = .disconnected ∧ s.Bare := by
  cases h with
  | spawned _ hs hb => exact ⟨hs, hb⟩
  | _ => simp_all

theorem of_connecting (h : Sound s) (hp : s.phase = .connecting) :
    s.state = .connecting ∧ s.Bare := by
  cases h with
  | connecting _ hs hb => exact ⟨hs, hb⟩
  | _ => simp_all

theorem of_open (h : Sound s) (hp : s.phase = .waiting) (ht : s.transport.isSome = true) :
    s.state = .opened ∧ (∀ q, s.queue = some q → q.Ready) ∧ s.timer.deadline = none := by
  cases h with
  | playing _ hs _ hq hd => exact ⟨hs, hq, hd⟩
  | _ => simp_all

theorem of_lost (h : Sound s) (hp : s.phase = .waiting) (ht : s.transport = none) :
    s.state = .reconnectPending ∧ s.queue = none ∧ s.timer.deadline.isSome = true := by
  cases h with
  | pausing _ hs _ hq hd => exact ⟨hs, hq, hd⟩
  | _ => simp_all

theorem ready (h : Sound s) (hp : s.phase = .waiting) : ∀ q, s.queue = some q → q.Ready := by
  cases h with
  | playing _ _ _ hq => exact hq
  | pausing _ _ _ hq => simp [hq]
  | _ => simp_all

theorem of_due (h : Sound s) (hp : s.phase = .waiting) (hd : s.timer.due now = true) :
    s.transport = none ∧ s.queue = none := by
  have harmed : s.timer.deadline.isSome = true := ReconnectTimer.armed_of_due hd
  cases h with
  | pausing _ _ ht hq => exact ⟨ht, hq⟩
  | _ => simp_all

theorem of_closing {deadline : Nat} (h : Sound s) (hp : s.phase = .closing deadline) :
    s.stopRequested = true ∧ s.state = .opened ∧ s.transport.isSome = true ∧ s.queue = none ∧
      s.timer.deadline = none := by
  cases h with
  | closing _ hr hs ht hq hd => exact ⟨hr, hs, ht, hq, hd⟩
  | _ => simp_all

/-- What may come to be handled, and what is held then. -/
inductive Comes (s : Supervisor σ) (now : Nat) : Input → Prop where
  | begin (hp : s.phase = .spawned) (hs : s.state ≠ .destroyed) (hb : s.Bare) : Comes s now .begin
  | stop (hp : s.phase = .connecting ∨ s.phase = .waiting)
      (hs : s.state = .opened ∨ s.transport = none ∧ s.state ≠ .destroyed) (ha : s.Alive)
      (hr : s.stopRequested = true) : Comes s now .stop
  | reconnect (hp : s.phase = .waiting) (hs : s.state ≠ .destroyed) (ht : s.transport = none)
      (hq : s.queue = none) : Comes s now .reconnect
  | notice {n : Notice} {rest : List Notice} (hp : s.phase = .waiting)
      (hn : s.notices = n :: rest) : Comes s now (.notice n)
  | connected (hp : s.phase = .connecting) (hs : s.state ≠ .destroyed) (hb : s.Bare) :
      Comes s now .connected
  | connectFailed (why : Fault) (hp : s.phase = .connecting) (hs : s.state ≠ .destroyed)
      (hb : s.Bare) : Comes s now (.connectFailed why)
  | received (r : Reception) (hp : s.phase = .waiting) (hs : s.state ≠ .destroyed) (ha : s.Alive)
      (ht : s.transport.isSome = true) : Comes s now (.received r)
  | closed {deadline : Nat} (hp : s.phase = .closing deadline) (hr : s.stopRequested = true)
      (hs : s.state ≠ .destroyed) (hq : s.queue = none) : Comes s now .closed
  | broken (hp : s.phase ≠ .ended ∧ s.phase ≠ .crashed) (hs : s.state ≠ .destroyed) (ha : s.Alive) :
      Comes s now .broken

/-- Whatever is admitted comes, and a stop on the way does not take away from what is held. -/
theorem comes {i : Input} (h : Sound s) (hi : Admits s now i) (stop : Bool) :
    Comes (s.stopIf stop) now i := by
  replace h := h.stopIf stop
  have hphase := stopIf_phase s stop
  have htransport := stopIf_transport s stop
  have htimer := stopIf_timer s stop
  have hnotices := stopIf_notices s stop
  have hstop (h : s.stopRequested = true) := stopIf_stopRequested s stop h
  generalize s.stopIf stop = s' at h hphase htransport htimer hnotices hstop ⊢
  have hready (hp : s.phase = .waiting) : s'.Alive :=
    fun q hq => (h.ready (hphase.trans hp) q hq).alive
  cases hi with
  | begin hp =>
    replace hp := hphase.trans hp
    obtain ⟨hs, hb⟩ := h.of_spawned hp
    exact .begin hp (by simp [hs]) hb
  | stop hp hs =>
    rw [← hphase] at hp
    refine .stop hp ?_ ?_ (hstop hs)
    · rcases hp with hp | hp
      · obtain ⟨hs, hb⟩ := h.of_connecting hp
        exact .inr ⟨hb.transport, by simp [hs]⟩
      · by_cases ht : s'.transport.isSome = true
        · exact .inl (h.of_open hp ht).1
        · exact .inr ⟨by simpa using ht, h.state_ne (by simp [hp])⟩
    · rcases hp with hp | hp
      · exact alive_of_none (h.of_connecting hp).2.queue
      · exact fun q hq => (h.ready hp q hq).alive
  | reconnect hp hs hd =>
    replace hp := hphase.trans hp
    obtain ⟨ht, hq⟩ := h.of_due hp (htimer ▸ hd)
    exact .reconnect hp (h.state_ne (by simp [hp])) ht hq
  | notice hp hs hn => exact .notice (hphase.trans hp) (hnotices.trans hn)
  | connected hp hs =>
    replace hp := hphase.trans hp
    obtain ⟨hs, hb⟩ := h.of_connecting hp
    exact .connected hp (by simp [hs]) hb
  | connectFailed why hp hs =>
    replace hp := hphase.trans hp
    obtain ⟨hs, hb⟩ := h.of_connecting hp
    exact .connectFailed why hp (by simp [hs]) hb
  | received r hp hs ht =>
    have hp' := hphase.trans hp
    exact .received r hp' (h.state_ne (by simp [hp'])) (hready hp) (htransport ▸ ht)
  | closed hp =>
    replace hp := hphase.trans hp
    obtain ⟨hr, hs, _, hq, _⟩ := h.of_closing hp
    exact .closed hp hr (by simp [hs]) hq
  | connectBroken hp =>
    replace hp := hphase.trans hp
    obtain ⟨hs, hb⟩ := h.of_connecting hp
    exact .broken (by simp [hp]) (by simp [hs]) (alive_of_none hb.queue)
  | transportBroken hp =>
    have hp' := hphase.trans hp
    exact .broken (by simp [hp']) (h.state_ne (by simp [hp'])) (hready hp)
  | closeBroken hp =>
    replace hp := hphase.trans hp
    obtain ⟨_, hs, _, hq, _⟩ := h.of_closing hp
    exact .broken (by simp [hp]) (by simp [hs]) (alive_of_none hq)

/-! ## Handlers -/

theorem crash (hs : s.state ≠ .destroyed) : Sound (s.crash out) :=
  .crashed rfl (by simpa [Supervisor.crash] using hs)
    ⟨by simp [Supervisor.crash], destroyQueue_queue out _, rfl⟩

theorem finish (hs : s.state ≠ .destroyed) (hr : s.stopRequested = true)
    (ht : s.transport = none) : Sound (s.finish out) := by
  have hterminal : s.state.terminal = false := by simp [SessionState.terminal, hs]
  refine .ended rfl ?_ ?_ ⟨?_, ?_, ?_⟩ <;>
    simp [Supervisor.finish, note, emit, hterminal, hr, ht, destroyQueue_queue,
      ReconnectTimer.cancel]

theorem teardown (hs : s.state = .opened ∨ s.transport = none ∧ s.state ≠ .destroyed)
    (hr : s.stopRequested = true) : Sound (s.teardown out now) := by
  unfold Supervisor.teardown
  simp only [destroyQueue_transport]
  split
  · rename_i ht
    have hs : s.state ≠ .destroyed := by
      rcases hs with hs | ⟨_, hs⟩
      · simp [hs]
      · exact hs
    exact finish (by simpa using hs) (by simp [hr]) (by simpa using ht)
  · rename_i attempt ht
    have ht : s.transport = some attempt := ht
    have hs : s.state = .opened := hs.resolve_right fun h => by cases ht.symm.trans h.1
    refine .closing rfl ?_ ?_ ?_ ?_ ?_ <;>
      simp [note, hr, hs, ht, destroyQueue_queue, ReconnectTimer.cancel]

theorem connect (hs : s.state ≠ .destroyed) (hb : s.Bare) : Sound (s.connect out now) := by
  unfold Supervisor.connect
  split
  · rename_i h
    rw [halted_iff hs] at h
    exact teardown (.inr ⟨hb.transport, hs⟩) h
  · exact .connecting rfl (by simp [note]) ⟨by simp [note, hb.transport], by simp [note, hb.queue],
      by simp [note, hb.disarmed]⟩

theorem lose (why : Option Fault) (hs : s.state ≠ .destroyed) : Sound (s.lose out now why) := by
  unfold Supervisor.lose
  simp only
  split
  · rename_i h
    rw [halted_iff (by simpa [emit, note] using hs)] at h
    exact finish (by simpa [emit, note] using hs) h (by simp [emit, note])
  · refine .pausing ?_ ?_ ?_ ?_ ?_ <;>
      simp [emit, note, destroyQueue_queue, ReconnectTimer.arm]

/-- Breakdowns aside, a session that plays goes on playing. -/
theorem plays (h : Plays out s s') (hp : s.phase = .waiting) (hs : s.state = .opened)
    (ht : s.transport.isSome = true) (hd : s.timer.deadline = none) : Sound s' := by
  cases h with
  | well h hq =>
    have ha := h.abreast
    exact .playing (ha.phase.trans hp) (ha.state.trans hs) (ha.transport ▸ ht) hq (ha.timer ▸ hd)
  | crash h => exact crash (by rw [h.abreast.state, hs]; decide)
  | breakdown h hb => exact crash (by rw [hb.state, h.abreast.state, hs]; decide)

theorem frame {f : ByteArray} (h : Sound s) (hp : s.phase = .waiting)
    (ht : s.transport.isSome = true) : Sound (s.handleFrame out f) := by
  cases hr : s.halted with
  | true => rwa [handleFrame, hr, if_pos rfl]
  | false =>
    obtain ⟨hs, hq, hd⟩ := of_open h hp ht
    exact plays (Plays.frame f ⟨hp, ht, hr⟩ hq) hp hs ht hd

theorem notice {n : Notice} {rest : List Notice} (h : Sound s) (hp : s.phase = .waiting)
    (hn : s.notices = n :: rest) : Sound ({ s with notices := rest }.handleNotice out n) := by
  by_cases ht : s.transport.isSome = true
  · obtain ⟨hs, hq, hd⟩ := of_open h hp ht
    exact plays (Plays.notice hp hn hq) hp hs ht hd
  · have ht : s.transport = none := by simpa using ht
    obtain ⟨hs, hq, hd⟩ := of_lost h hp ht
    have hsame : { s with notices := rest }.handleNotice out n = { s with notices := rest } := by
      simp [handleNotice, hq]
    rw [hsame]
    exact .pausing hp hs ht hq hd

theorem handle {i : Input} (h : Sound s) (hi : Comes s now i) : Sound (s.handle out now i) := by
  cases hi with
  | begin _ hs hb => exact connect hs hb
  | stop hp hs _ hr =>
    rw [Supervisor.handle]
    unfold abandonConnect
    split <;> exact teardown hs hr
  | reconnect _ hs ht hq => exact connect hs ⟨ht, hq, rfl⟩
  | notice hp hn =>
    rw [Supervisor.handle, hn]
    exact notice h hp hn
  | connected _ _ hb =>
    refine .playing ?_ ?_ ?_ ?_ ?_ <;>
      simp [Supervisor.handle, opened, emit, note, hb.queue, hb.disarmed]
  | connectFailed why _ hs => exact lose (some why) hs
  | received r hp hs _ ht =>
    cases r with
    | frame f => exact frame h hp ht
    | closed => exact lose none hs
    | failed why => exact lose (some why) hs
  | closed _ hr hs =>
    exact finish (by simpa using hs) (by simpa using hr) (dropTransport_transport s)
  | broken _ hs => exact crash hs

theorem notify (h : Sound s) (n : Notice) : Sound (s.notify n) := by
  unfold Supervisor.notify
  simp only
  split <;> exact h.congr ⟨rfl, rfl, rfl, rfl, rfl, id⟩ rfl

theorem step {m m' : Moment σ} (h : Sound m.supervisor) (hm : Step out m m') :
    Sound m'.supervisor := by
  cases hm with
  | pass => exact h
  | stop => exact h.requestStop
  | notify n => exact h.notify n
  | touch x => exact h.congr ⟨rfl, rfl, rfl, rfl, rfl, id⟩ rfl
  | handle stop hi => exact (h.stopIf stop).handle (h.comes hi stop)

end Sound

theorem Reachable.sound {out : Surface σ} {m : Moment σ} (h : Reachable out m) :
    Sound m.supervisor := by
  induction h with
  | spawn => exact .spawned rfl rfl ⟨rfl, rfl, rfl⟩
  | step _ step ih => exact ih.step step

end LivePlayback
