import LivePlayback.Proofs.Player.Succession
import LivePlayback.Proofs.Session.Protocol
import LivePlayback.Proofs.Session.Terminality

/-!
# Shutting down

A session on a clock: it takes its turns, others act in between, and time passes only while it has
nothing to do, and not beyond the moment at which it wakes up by itself. A session that was asked to
stop comes to the same end from wherever it is, whatever its transport does, and before the time
that a transport is given to close is over.
-/

namespace LivePlayback
set_option autoImplicit false

open Supervisor

variable {σ η : Type}

/-- A session and its host at a time. -/
structure Clocked (σ η : Type) extends Driven σ η where
  now : Nat

namespace Clocked

def moment (c : Clocked σ η) : Moment σ := ⟨c.now, c.supervisor⟩

/-- After the next turn. -/
def poll (out : Surface σ) (host : Host η) (c : Clocked σ η) : Clocked σ η :=
  ⟨c.supervisor.step out host c.now c.host, c.now⟩

/-- A session has its turn at once after it was called from outside. -/
def wake (c : Clocked σ η) (f : Supervisor σ → Supervisor σ) : Clocked σ η :=
  { c with supervisor := f c.supervisor, pause := .running }

/-- Nothing is left to do for the session. -/
def resting (c : Clocked σ η) : Prop := c.pause = .blocked ∨ c.pause = .finished

inductive Tick (out : Surface σ) (host : Host η) : Clocked σ η → Clocked σ η → Prop where
  | poll (c : Clocked σ η) : Tick out host c (c.poll out host)
  | stop (c : Clocked σ η) : Tick out host c (c.wake requestStop)
  | notify (c : Clocked σ η) (n : Notice) : Tick out host c (c.wake (Supervisor.notify · n))
  /-- Something happens to the surface, or to the other ends of the connections. -/
  | touch (c : Clocked σ η) (x : σ) (h : η) :
      Tick out host c { c with supervisor := { c.supervisor with surface := x }, host := h }
  | pass {c : Clocked σ η} {later : Nat} (h : c.now ≤ later) (hr : c.resting)
      (hw : ∀ deadline, c.supervisor.wakeAt = some deadline → later ≤ Instant.ceilMilli deadline) :
      Tick out host c { c with now := later }

def Ticks (out : Surface σ) (host : Host η) : Clocked σ η → Clocked σ η → Prop :=
  Relation.ReflTransGen (Tick out host)

variable {out : Surface σ} {host : Host η} {c c' : Clocked σ η} {m : Moment σ}

theorem Tick.run (h : Tick out host c c') : Run out c.moment c'.moment := by
  cases h with
  | poll => exact run_step c.supervisor c.host
  | stop => exact .single (.stop c.moment)
  | notify n => exact .single (.notify c.moment n)
  | touch x => exact .single (.touch c.moment x)
  | pass h => exact .single (.pass (m := c.moment) h)

/-- What happens on a clock could happen without one. -/
theorem Ticks.run (h : Ticks out host c c') : Run out c.moment c'.moment := by
  induction h with
  | refl => exact .refl _
  | tail _ tick ih => exact ih.trans tick.run

end Clocked

/-! ## The turns of a stopped session -/

namespace Supervisor

variable {out : Surface σ} {host : Host η} {s s₁ s₂ : Supervisor σ} {now : Nat}

theorem Idles.trans (h : Idles s s₁) (h' : Idles s₁ s₂) : Idles s s₂ :=
  ⟨h.toAbreast.trans h'.toAbreast, h.passes.trans h'.passes, h'.queue.trans h.queue,
    h'.generation.trans h.generation⟩

/-- It has not seen a stop yet. -/
def Unaware (s : Supervisor σ) : Prop :=
  s.phase = .spawned ∨ s.phase = .connecting ∨ s.phase = .waiting

/-- What the turn in which a stop is seen makes of a session. -/
structure SeesStop (now : Nat) (s s' : Supervisor σ) : Prop where
  books : s'.books = s.books
  ended : s.transport = none → s'.phase = .ended
  closing : s.transport.isSome = true → s'.phase = .closing (s.config.closeTimeout.after now)

theorem SeesStop.teardown (ha : s.Alive) (hs : s.state ≠ .destroyed) :
    SeesStop now s (s.teardown out now) := by
  cases ht : s.transport with
  | none =>
    obtain ⟨hpasses, hphase⟩ := Passes.teardown_of_none out now ha hs ht
    exact ⟨hpasses.books, fun _ => hphase, fun hsome => by simp [ht] at hsome⟩
  | some attempt =>
    obtain ⟨hpasses, hphase⟩ := Passes.teardown_of_some out now ha ht
    exact ⟨hpasses.books, fun hnone => (by cases ht.symm.trans hnone), fun _ => hphase⟩

theorem exists_seesStop (out : Surface σ) (now : Nat) (h : Sound s) (ha : s.Unaware)
    (hr : s.stopRequested = true) :
    ∃ i, s.turn now = .take i ∧ SeesStop now s (s.handle out now i) := by
  have hhalted : s.halted = true := by simp [halted, hr]
  rcases ha with hp | hp | hp
  · obtain ⟨hs, hb⟩ := h.of_spawned hp
    refine ⟨.begin, by simp only [turn, hp], ?_⟩
    rw [handle, connect, if_pos hhalted]
    exact .teardown (alive_of_none hb.queue) (by simp [hs])
  · obtain ⟨hs, hb⟩ := h.of_connecting hp
    refine ⟨.stop, by simp only [turn, hp, hr, if_true], ?_⟩
    have habandon : Passes s s.abandonConnect _ := .abandonConnect hp
    have hgone : s.abandonConnect = s.note (.abandoned s.totals.connects) := by
      rw [abandonConnect, if_pos hp]
    have hsees : SeesStop now s.abandonConnect (s.abandonConnect.teardown out now) := by
      rw [hgone]
      exact .teardown (alive_of_none hb.queue) (h.state_ne (by simp [hp]))
    refine ⟨hsees.books.trans habandon.books, fun ht => hsees.ended ?_, by simp [hb.transport]⟩
    rw [hgone]
    exact ht
  · refine ⟨.stop, by simp only [turn, hp, hr, if_true], ?_⟩
    rw [handle, abandonConnect, if_neg (by simp [hp])]
    exact .teardown (fun q hq => (h.ready hp q hq).alive) (h.state_ne (by simp [hp]))

theorem endClosing_phase (out : Surface σ) (s : Supervisor σ) :
    (s.endClosing out).phase = .ended := rfl

theorem endClosing_books (h : Sound s) {deadline : Nat} (hp : s.phase = .closing deadline) :
    (s.endClosing out).books = s.books := by
  obtain ⟨_, hs, _, hq, _⟩ := h.of_closing hp
  have hdrop : Passes s s.dropTransport _ := .dropTransport s
  have hfinish : Passes s.dropTransport (s.dropTransport.finish out) _ :=
    .finish (by simpa using hq) (by simp [hs])
  exact hfinish.books.trans hdrop.books

end Supervisor

/-! ## The way to the end -/

namespace Moment

/-- By then a session that is asked to stop now is over: at once without a transport, and otherwise
when the time is up that the transport has to close. -/
def stopLimit (m : Moment σ) : Nat :=
  match m.supervisor.transport with
  | none => m.now
  | some _ => Instant.ceilMilli (m.supervisor.config.closeTimeout.after m.now)

theorem le_stopLimit (m : Moment σ) : m.now ≤ m.stopLimit := by
  unfold stopLimit
  split
  · exact Nat.le_refl _
  · exact (Nat.le_add_right _ _).trans (Instant.le_ceilMilli _)

/-- The session is woken up on a clock. -/
def clocked (m : Moment σ) (x : η) : Clocked σ η := ⟨⟨m.supervisor, x, .running, 0⟩, m.now⟩

end Moment

namespace Clocked

section

variable (out : Surface σ) (host : Host η) {c : Clocked σ η}

theorem poll_of_take {i : Input} (ht : c.supervisor.turn c.now = .take i) :
    (c.poll out host).supervisor = c.supervisor.handle out c.now i := by
  simp only [poll, step, ht]
  rfl

/-- While its transport closes a stopped session waits until the deadline. -/
theorem poll_of_closing {deadline : Nat} (hp : c.supervisor.phase = .closing deadline)
    (hr : c.supervisor.stopRequested = true) :
    (c.poll out host).supervisor = c.supervisor.endClosing out ∨
      c.now < deadline ∧ (c.poll out host).supervisor = c.supervisor ∧
        (c.poll out host).pause = .blocked := by
  have hturn : c.supervisor.turn c.now = .ask .close := by simp only [turn, hp]
  have hwait (r : HostReply η Unit) :
      c.supervisor.pauseWith r .blocked = ⟨c.supervisor, r.host, .blocked, r.cost⟩ := by
    rw [pauseWith, if_neg (by simp [hr])]
  simp only [poll, step, hturn]
  split
  · left
    rw [stopIf_of_stopped hr]
    rfl
  · split
    · exact .inl rfl
    · rename_i hdue
      have hbefore : c.now < deadline := by simpa [closingDue, hp] using hdue
      rw [hwait]
      exact .inr ⟨hbefore, rfl, rfl⟩

theorem poll_of_ended (hp : c.supervisor.phase = .ended) :
    (c.poll out host).supervisor = c.supervisor := by
  simp only [poll, step, turn, hp]

end

variable {out : Surface σ} {host : Host η} {c c' : Clocked σ η} {m : Moment σ}

/-- How far a session has come that was asked to stop. -/
inductive Winding (m : Moment σ) (c : Clocked σ η) : Prop where
  | unaware (ha : c.supervisor.Unaware) (hi : Idles m.supervisor c.supervisor)
      (hn : c.now = m.now) (hp : c.pause = .running) : Winding m c
  | closing {deadline : Nat} (hp : c.supervisor.phase = .closing deadline)
      (hd : Instant.ceilMilli deadline = m.stopLimit) (hn : c.now ≤ m.stopLimit)
      (hb : c.supervisor.books = m.supervisor.books) : Winding m c
  | ended (hp : c.supervisor.phase = .ended) (hb : c.supervisor.books = m.supervisor.books) :
      Winding m c

/-- Nothing is left to do but to wait for the transport to close, and that has a limit. -/
structure Waits (out : Surface σ) (host : Host η) (m : Moment σ) (c : Clocked σ η) : Prop where
  early : c.now < m.stopLimit
  asks : c.supervisor.turn c.now = .ask .close
  idles : (c.poll out host).supervisor = c.supervisor
  blocked : (c.poll out host).pause = .blocked
  wakes : c.supervisor.wakeAt.map Instant.ceilMilli = some m.stopLimit

namespace Winding

theorem start (x : η) (h : m.supervisor.Unaware ∨ m.supervisor.phase = .ended) :
    Winding m (m.clocked x) := by
  rcases h with h | h
  · exact .unaware h (.refl _) rfl rfl
  · exact .ended h rfl

theorem poll (h : Winding m c) (hs : Sound c.supervisor) (hr : c.supervisor.stopRequested = true) :
    Winding m (c.poll out host) := by
  cases h with
  | unaware ha hi hn =>
    obtain ⟨i, hturn, hsees⟩ := exists_seesStop out c.now hs ha hr
    rw [← poll_of_take out host hturn] at hsees
    have hbooks := hsees.books.trans hi.passes.books
    cases ht : m.supervisor.transport with
    | none => exact .ended (hsees.ended (hi.transport.trans ht)) hbooks
    | some attempt =>
      have hphase := hsees.closing (by rw [hi.transport, ht]; rfl)
      have hlimit : m.stopLimit =
          Instant.ceilMilli (m.supervisor.config.closeTimeout.after m.now) := by
        simp only [Moment.stopLimit, ht]
      rw [hn, hi.config] at hphase
      exact .closing hphase hlimit.symm (hn ▸ m.le_stopLimit) hbooks
  | closing hp hd hn hb =>
    rcases poll_of_closing out host hp hr with hpoll | ⟨_, hpoll, _⟩
    · refine .ended ?_ ?_ <;> rw [hpoll]
      · rfl
      · exact (endClosing_books hs hp).trans hb
    · refine .closing ?_ hd hn ?_ <;> rw [hpoll]
      · exact hp
      · exact hb
  | ended hp hb => refine .ended ?_ ?_ <;> rwa [poll_of_ended out host hp]

/-- What happens from outside leaves a session where it is. -/
theorem idle (h : Winding m c) (hi : Idles c.supervisor c'.supervisor) (hn : c'.now = c.now)
    (hp : c.pause = .running → c'.pause = .running) : Winding m c' := by
  have hbooks := hi.passes.books
  have hphase := hi.phase
  cases h with
  | unaware ha hi' hn' hp' =>
    exact .unaware (by rwa [Unaware, hphase]) (hi'.trans hi) (hn.trans hn') (hp hp')
  | closing hp' hd hn' hb => exact .closing (hphase.trans hp') hd (hn ▸ hn') (hbooks.trans hb)
  | ended hp' hb => exact .ended (hphase.trans hp') (hbooks.trans hb)

theorem tick (h : Winding m c) (hs : Sound c.supervisor) (hr : c.supervisor.stopRequested = true)
    (ht : Tick out host c c') : Winding m c' := by
  cases ht with
  | poll => exact h.poll hs hr
  | stop => exact h.idle (.requestStop _) rfl fun _ => rfl
  | notify n => exact h.idle (.notify _ n) rfl fun _ => rfl
  | touch x => exact h.idle (.touch _ x) rfl id
  | @pass later _ hrest hw =>
    cases h with
    | unaware _ _ _ hp => simp [resting, hp] at hrest
    | @closing deadline hp hd _ hb =>
      have hlater : later ≤ Instant.ceilMilli deadline := hw deadline (by simp only [wakeAt, hp])
      exact .closing hp hd (hd ▸ hlater) hb
    | ended hp hb => exact .ended hp hb

theorem ticks (h : Winding m c) (hm : Reachable out c.moment)
    (hr : c.supervisor.stopRequested = true) (ht : Ticks out host c c') : Winding m c' := by
  induction ht with
  | refl => exact h
  | @tail c₁ _ ht tick ih =>
    have hm₁ : Reachable out c₁.moment := hm.run (Ticks.run ht)
    exact ih.tick hm₁.sound (((Ticks.run ht).winds hm hr).1.stopped hr) tick

/-- Every turn brings the end nearer, but for those in which the session waits. -/
theorem next (out : Surface σ) (host : Host η) (h : Winding m c) (hs : Sound c.supervisor)
    (hr : c.supervisor.stopRequested = true) (hp : c.supervisor.phase ≠ .ended) :
    (c.poll out host).supervisor.remaining < c.supervisor.remaining ∨ c.Waits out host m := by
  cases h with
  | unaware ha =>
    obtain ⟨i, hturn, _⟩ := exists_seesStop out c.now hs ha hr
    have hlast : LastInput c.supervisor i := (admits_of_turn_take hturn).lastInput hr
    left
    rw [poll_of_take out host hturn]
    exact (handle_lastInput out c.now hlast hr).1
  | closing hp' hd _ =>
    rcases poll_of_closing out host hp' hr with hpoll | ⟨hlate, hpoll, hpause⟩
    · left
      rw [hpoll, remaining, endClosing_phase, remaining, hp']
      exact Nat.one_pos
    · have hbefore : c.now < m.stopLimit := hd ▸ Nat.lt_of_lt_of_le hlate (Instant.le_ceilMilli _)
      refine .inr ⟨hbefore, ?_, hpoll, hpause, ?_⟩
      · simp only [turn, hp']
      · simp only [wakeAt, hp', Option.map_some, hd]
  | ended hp' => exact absurd hp' hp

/-- Whatever its host does, a session can get to its end in time. -/
theorem exists_ended (host : Host η) (h : Winding m c) (hm : Reachable out c.moment)
    (hr : c.supervisor.stopRequested = true) : ∃ c', Ticks out host c c' ∧
      c'.supervisor.phase = .ended ∧ c'.now ≤ max c.now m.stopLimit := by
  generalize hn : c.supervisor.remaining = n
  induction n using Nat.strong_induction_on generalizing c with
  | _ n ih =>
    by_cases hp : c.supervisor.phase = .ended
    · exact ⟨c, .refl, hp, Nat.le_max_left _ _⟩
    have hpoll {c : Clocked σ η} : Tick out host c (c.poll out host) := .poll c
    rcases h.next out host hm.sound hr hp with
      hless | ⟨hlate, _, hsame, hpause, hwake⟩
    · have hr' := (hpoll.run.winds hm hr).1.stopped hr
      obtain ⟨c', hticks, hended, hle⟩ :=
        ih _ (hn ▸ hless) (h.poll hm.sound hr) (hm.run hpoll.run) hr' rfl
      exact ⟨c', .head hpoll hticks, hended, hle⟩
    · -- Its transport does not close, so nothing happens before the limit; then it is given up.
      let due : Clocked σ η := { c.poll out host with now := m.stopLimit }
      have hdue : due.supervisor = c.supervisor := hsame
      have hwait : Ticks out host c due := by
        refine .head hpoll (.single (.pass (Nat.le_of_lt hlate) (.inl hpause) ?_))
        intro deadline hd
        have hd' : c.supervisor.wakeAt = some deadline := hsame ▸ hd
        rw [hd', Option.map_some, Option.some.injEq] at hwake
        exact Nat.le_of_eq hwake.symm
      have hm' : Reachable out due.moment := hm.run (Ticks.run hwait)
      have hr' : due.supervisor.stopRequested = true := hdue ▸ hr
      have hwinding : Winding m due := h.ticks hm hr hwait
      have hless : (due.poll out host).supervisor.remaining < n := by
        rcases hwinding.next out host hm'.sound hr' (hdue ▸ hp) with
          hless | hwaits
        · rwa [hdue, hn] at hless
        · exact absurd hwaits.early (Nat.lt_irrefl _)
      obtain ⟨c', hticks, hended, hle⟩ :=
        ih _ hless (hwinding.poll hm'.sound hr') (hm'.run hpoll.run)
          ((hpoll.run.winds hm' hr').1.stopped hr') rfl
      refine ⟨c', hwait.trans (.head hpoll hticks), hended, ?_⟩
      have hnow : (due.poll out host).now = m.stopLimit := rfl
      rw [hnow, Nat.max_self] at hle
      exact hle.trans (Nat.le_max_right _ _)

end Winding
end Clocked

/-! ## The end -/

theorem Journal.WindsTo.events_eq {j j' : Journal} {told : List Event} (h : j.WindsTo j' told) :
    j'.events = j.events ++ told := by
  obtain ⟨later, rfl, _, rfl⟩ := h
  exact events_append later j

/-- A session tells once that it has stopped. -/
theorem Reachable.count_stopped {out : Surface σ} {m : Moment σ} (h : Reachable out m)
    (hp : m.supervisor.phase = .ended) : m.journal.events.count .stopped = 1 := by
  obtain ⟨now, url, config, x, tracing, hrun⟩ := h.exists_run
  obtain ⟨_, _, htold⟩ := hrun.told (.spawn now url config x tracing) .disconnected
  rw [h.sound.destroyed_iff.mpr hp] at htold
  have hstopped : ∃ before, m.journal.events = before ++ [.stopped] ∧ .stopped ∉ before := by
    cases htold with
    | word h => exact h.stopped
    | cutShort h _ => exact h.stopped
  obtain ⟨before, hevents, hnot⟩ := hstopped
  rw [hevents, List.count_append, List.count_eq_zero_of_not_mem hnot]
  rfl

/-- What a session that was asked to stop at a moment has left behind when it has ended. -/
structure Supervisor.ShutDown (m : Moment σ) (s : Supervisor σ) : Prop where
  retired : s.Retired
  /-- What waited for the sink at that moment is counted as dropped, and no chunk came after. -/
  books : s.journal.books = m.supervisor.books
  sinks : ∀ g codecs, .created g codecs ∈ s.journal → s.journal.releases g = 1
  once : s.journal.events.count .stopped = 1
  /-- Whoever waits for the session is given the surface. -/
  returned : ∀ w : Succession σ, w.current? = some s → w.returned? = some s.surface

theorem Reachable.shutDown {out : Surface σ} {m m' : Moment σ} (hm : Reachable out m')
    (hp : m'.supervisor.phase = .ended) (hb : m'.supervisor.books = m.supervisor.books) :
    m'.supervisor.ShutDown m := by
  have hretired : m'.supervisor.Retired := hm.retired hp
  refine ⟨hretired, ?_, fun g codecs hc => hm.accounted.releases_eq_one hretired.bare.queue hc,
    hm.count_stopped hp, fun w hw => ?_⟩
  · rw [← hb, Supervisor.books, hretired.bare.queue]
    rfl
  · simp only [Succession.returned?, hw, Option.bind_some, hp, if_true]

namespace Clocked

/-- How a session fares on a clock that was asked to stop at a moment. -/
structure TearsDown (out : Surface σ) (host : Host η) (m : Moment σ) (c : Clocked σ η) : Prop where
  inTime : c.supervisor.phase ≠ .ended → c.now ≤ m.stopLimit
  next : c.supervisor.phase ≠ .ended →
    (c.poll out host).supervisor.remaining < c.supervisor.remaining ∨ c.Waits out host m
  ends : ∃ c', Ticks out host c c' ∧ c'.supervisor.phase = .ended ∧ c'.now ≤ max c.now m.stopLimit
  sturdy : c.supervisor.phase ≠ .crashed
  /-- While a transport closes no sink is left. -/
  closing : c.supervisor.turn c.now = .ask .close →
    c.supervisor.queue = none ∧ c.supervisor.journal.Vacant
  told : c.supervisor.journal.events = m.journal.events ++ m.farewell c.moment
  ended : c.supervisor.phase = .ended → c.supervisor.ShutDown m

/-- From wherever it is, a session that is asked to stop comes to the same end, and in time. It
makes no difference whether its transport closes, fails to or never does, or what becomes of a
connect. -/
theorem stop_tears_down {out : Surface σ} {host : Host η} {m : Moment σ} {x : η}
    {c : Clocked σ η} (hm : Reachable out m) (hr : m.supervisor.stopRequested = true)
    (hp : m.supervisor.Unaware ∨ m.supervisor.phase = .ended)
    (h : Ticks out host (m.clocked x) c) : c.TearsDown out host m := by
  have hrun : Run out m c.moment := Ticks.run h
  have hc : Reachable out c.moment := hm.run hrun
  obtain ⟨hwinds, _⟩ := hrun.winds hm hr
  have hr' : c.supervisor.stopRequested = true := hwinds.stopped hr
  have hwinding : Winding m c := (Winding.start x hp).ticks hm hr h
  refine ⟨fun hp' => ?_, hwinding.next out host hc.sound hr', hwinding.exists_ended host hc hr', ?_,
    fun hturn => ?_, ?_, fun hp' => ?_⟩
  · cases hwinding with
    | unaware _ _ hn => exact hn ▸ m.le_stopLimit
    | closing _ _ hn => exact hn
    | ended hp => exact absurd hp hp'
  · cases hwinding with
    | unaware ha => rcases ha with ha | ha | ha <;> simp [ha]
    | closing hp | ended hp => simp [hp]
  · have hqueue : c.supervisor.queue = none := by
      cases hwinding with
      | unaware ha =>
        obtain ⟨i, htake, _⟩ := exists_seesStop out c.now hc.sound ha hr'
        cases htake.symm.trans hturn
      | closing hp => exact (hc.sound.of_closing hp).2.2.2.1
      | ended hp => exact (hc.retired hp).bare.queue
    exact ⟨hqueue, hc.accounted.vacant hqueue⟩
  · exact hwinds.journal.events_eq
  · have hb : c.supervisor.books = m.supervisor.books := by
      cases hwinding with
      | unaware _ hi => exact hi.passes.books
      | closing _ _ _ hb | ended _ hb => exact hb
    exact hc.shutDown hp' hb

end Clocked

/-- A host that never answers. -/
def Host.mute : Host Unit where
  connect _ _ _ := ⟨.later, (), false, 0⟩
  receive _ _ := ⟨.later, (), false, 0⟩
  close _ _ := ⟨.later, (), false, 0⟩
  abandon _ := ()
  drop _ := ()

/-- One chunk is in flight, one waits, and the transport never closes. -/
theorem Clocked.stop_tears_down_of_pending_chunk :
    let out := Rehearsal.Stage.surface
    let m := (Moment.scripted out (.create false)
      [.frame (FrameTag.codec.build "avc1".toUTF8), .frame (FrameTag.media.build "a".toUTF8),
        .frame (FrameTag.media.build "b".toUTF8)] 5).update requestStop
    let waiting := ((m.clocked ()).poll out .mute).poll out .mute
    let c := { waiting with now := 1000000000 }.poll out .mute
    m.stopLimit = 1000000000 ∧
      m.supervisor.queue.map (fun q => q.pending.length) = some 1 ∧
      waiting.supervisor.phase = .closing 1000000000 ∧ c.supervisor.phase = .ended ∧
      c.TearsDown out .mute m := by
  intro out m waiting c
  have hm : Reachable out m := (Moment.reachable_scripted _ _ _ 5).step (.stop _)
  have hblocked : waiting.pause = .blocked := by decide +kernel
  have hwakes : waiting.supervisor.wakeAt = some 1000000000 := by decide +kernel
  have hpass : Tick out .mute waiting { waiting with now := 1000000000 } := by
    refine .pass (Nat.zero_le _) (.inl hblocked) fun deadline hd => ?_
    cases hwakes.symm.trans hd
    exact Instant.le_ceilMilli _
  have hticks : Ticks out .mute (m.clocked ()) c :=
    .head (.poll _) (.head (.poll _) (.head hpass (.single (.poll _))))
  exact ⟨by decide +kernel, by decide +kernel, by decide +kernel, by decide +kernel,
    stop_tears_down hm (by decide +kernel) (.inl (.inr (.inr (by decide +kernel)))) hticks⟩

end LivePlayback
