import LivePlayback.Proofs.Session.Soundness

/-!
# The course of a session

Every step of a session is a chain of acts. Changes that concern neither sinks nor frames are quiet
and all alike here, so an invariant about sinks has to be checked for the other acts only.
-/

namespace LivePlayback
set_option autoImplicit false

open Supervisor

variable {σ : Type}

/-- Entries that concern neither sinks nor frames. -/
def Entry.quiet : Entry → Bool
  | .event (.disconnected _) | .event .stopped | .transportDropped _ | .received _ | .asked _
  | .created _ _ | .offered _ _ _ | .notified _ | .finished _ _ | .released _ => false
  | _ => true

/-- A change of the lifecycle that sinks and frames do not notice. -/
structure Quiet (s s' : Supervisor σ) : Prop where
  surface : s'.surface = s.surface
  notices : s'.notices = s.notices
  queue : s'.queue = s.queue
  transport : s'.transport = s.transport
  generation : s'.generation = s.generation
  destroyed : s'.state = .destroyed ↔ s.state = .destroyed
  receptive : Receptive s' → Receptive s
  /-- A session that broke down stays so, at least as long as it holds a queue. -/
  broken : s.phase = .crashed → s'.phase = .crashed ∨ s'.queue = none
  journal : ∃ entries : Journal, (∀ e ∈ entries, e.quiet = true) ∧ s'.journal = entries ++ s.journal

inductive Act (out : Surface σ) : Supervisor σ → Supervisor σ → Prop where
  | play {s s' : Supervisor σ} (h : PlayAct out s s') : Act out s s'
  | breakdown {s s' : Supervisor σ} (h : Breaks out s s') : Act out s s'
  | quiet {s s' : Supervisor σ} (h : Quiet s s') : Act out s s'
  | opened {s : Supervisor σ} (attempt : Nat) (ht : s.transport = none) (hq : s.queue = none) :
      Act out s ({ s with phase := .waiting, transport := some attempt }.note (.opened attempt))
  | drop {s : Supervisor σ} {attempt : Nat} (ht : s.transport = some attempt) :
      Act out s ({ s with transport := none }.note (.transportDropped attempt))
  /-- A queue is destroyed. -/
  | release {s : Supervisor σ} {q : AppendQueue} (hq : s.queue = some q) (hr : ¬ Receptive s) :
      Act out s (s.release out q)
  | disconnect {s : Supervisor σ} (why : Option String) (hq : s.queue = none) :
      Act out s (s.emit (.disconnected why))
  | retire {s : Supervisor σ} (hq : s.queue = none) (hs : s.state ≠ .destroyed) :
      Act out s ((s.setState .destroyed).emit .stopped)

theorem Act.alive {out : Surface σ} {s s' : Supervisor σ} (h : Act out s s') (ha : s.Alive) :
    s'.Alive := by
  cases h with
  | play h => exact h.alive ha
  | breakdown h => exact h.alive ha
  | quiet h => exact fun q hq => ha q (h.queue ▸ hq)
  | retire hq => exact alive_of_none (by simpa [emit, note] using hq)
  | release => exact alive_of_none rfl
  | opened | drop | disconnect => exact ha

def Acts (out : Surface σ) : Supervisor σ → Supervisor σ → Prop := Relation.ReflTransGen (Act out)

namespace Quiet

variable {s s₁ s₂ : Supervisor σ}

theorem trans (h : Quiet s s₁) (h' : Quiet s₁ s₂) : Quiet s s₂ := by
  obtain ⟨entries, hquiet, hj⟩ := h.journal
  obtain ⟨entries', hquiet', hj'⟩ := h'.journal
  refine ⟨h'.surface.trans h.surface, h'.notices.trans h.notices, h'.queue.trans h.queue,
    h'.transport.trans h.transport, h'.generation.trans h.generation,
    h'.destroyed.trans h.destroyed, fun hr => h.receptive (h'.receptive hr),
    fun hp => (h.broken hp).elim h'.broken fun hq => .inr (h'.queue.trans hq),
    entries' ++ entries, ?_, by rw [hj', hj, List.append_assoc]⟩
  intro e he
  rcases List.mem_append.mp he with he | he
  · exact hquiet' e he
  · exact hquiet e he

theorem note {e : Entry} (he : e.quiet = true) : Quiet s (s.note e) :=
  ⟨rfl, rfl, rfl, rfl, rfl, .rfl, fun ⟨hp, ht, hr⟩ => ⟨hp, ht, hr⟩, .inl, [e], by simpa using he,
    rfl⟩

theorem emit {e : Event} (he : (Entry.event e).quiet = true) : Quiet s (s.emit e) := note he

/-- The alarm may be set or cancelled at any time. -/
theorem withTimer (timer : ReconnectTimer) : Quiet s { s with timer } :=
  ⟨rfl, rfl, rfl, rfl, rfl, .rfl, fun ⟨hp, ht, hr⟩ => ⟨hp, ht, hr⟩, .inl, [], nofun, rfl⟩

theorem withTotals (totals : Totals) : Quiet s { s with totals } :=
  ⟨rfl, rfl, rfl, rfl, rfl, .rfl, fun ⟨hp, ht, hr⟩ => ⟨hp, ht, hr⟩, .inl, [], nofun, rfl⟩

/-- So may the phase, as long as nobody listens in the new one. -/
theorem withPhase (phase : Phase) (h : s.transport = none ∨ phase ≠ .waiting)
    (hq : phase = .crashed ∨ s.queue = none) : Quiet s { s with phase } := by
  refine ⟨rfl, rfl, rfl, rfl, rfl, .rfl, ?_, fun _ => hq, [], nofun, rfl⟩
  rintro ⟨hp, ht, _⟩
  rcases h with h | h
  · simp [h] at ht
  · exact absurd hp h

theorem setState (state : SessionState) (hs : s.state ≠ .destroyed) (hs' : state ≠ .destroyed) :
    Quiet s (s.setState state) := by
  have hiff : state = .destroyed ↔ s.state = .destroyed := by simp [hs, hs']
  have hreceptive (hr : Receptive (s.setState state)) : Receptive s := by
    obtain ⟨hp, ht, hr⟩ := hr
    refine ⟨by simpa using hp, by simpa using ht, ?_⟩
    simpa [halted, SessionState.terminal, hs, hs'] using hr
  unfold Supervisor.setState at hreceptive ⊢
  split
  · exact ⟨rfl, rfl, rfl, rfl, rfl, .rfl, id, .inl, [], by simp, rfl⟩
  · rename_i hne
    rw [if_neg hne] at hreceptive
    exact ⟨rfl, rfl, rfl, rfl, rfl, hiff, hreceptive, .inl, [.state state],
      by simp [Entry.quiet], rfl⟩

theorem requestStop : Quiet s s.requestStop :=
  ⟨rfl, rfl, rfl, rfl, rfl, .rfl, fun ⟨_, _, hr⟩ => by simp [halted, Supervisor.requestStop] at hr,
    .inl, [], nofun, rfl⟩

/-- Without a transport, or once it is stopped, a session hears nothing. -/
theorem not_receptive (h : s.transport = none ∨ s.stopRequested = true) : ¬ Receptive s := by
  rintro ⟨_, ht, hr⟩
  rcases h with h | h
  · simp [h] at ht
  · simp [halted, h] at hr

end Quiet

namespace Acts

variable {out : Surface σ} {s s' : Supervisor σ} {now : Nat}

theorem destroyQueue (ha : s.Alive) (hr : ¬ Receptive s) :
    Acts out s (s.destroyQueue out) := by
  cases hq : s.queue with
  | none =>
    rw [destroyQueue_of_none hq]
    exact .refl
  | some q =>
    rw [destroyQueue_of_some hq (ha q hq)]
    exact .single (.release hq hr)

theorem dropTransport (s : Supervisor σ) : Acts out s s.dropTransport := by
  unfold Supervisor.dropTransport
  split
  · exact .refl
  · rename_i ht
    exact .single (.drop ht)

/-- What every act keeps, a chain of acts keeps. -/
theorem keep {P : Supervisor σ → Prop} (h : Acts out s s')
    (hact : ∀ s s', s.Alive → Act out s s' → P s → P s') (ha : s.Alive) (hs : P s) :
    s'.Alive ∧ P s' := by
  induction h with
  | refl => exact ⟨ha, hs⟩
  | tail _ act ih => exact ⟨act.alive ih.1, hact _ _ ih.1 act ih.2⟩

theorem quiet (h : Quiet s s') : Acts out s s' := .single (.quiet h)

theorem crash (ha : s.Alive) : Acts out s (s.crash out) := by
  have hdrop : Acts out s s.dropTransport := dropTransport s
  have hr : ¬ Receptive s.dropTransport := Quiet.not_receptive (.inl (dropTransport_transport s))
  have hdestroy : Acts out s.dropTransport (s.dropTransport.destroyQueue out) :=
    destroyQueue (by simpa [Alive] using ha) hr
  have htimer := Quiet.withTimer (s := s.dropTransport.destroyQueue out) s.timer.cancel
  have hend := htimer.trans (.withPhase .crashed (.inr nofun) (.inl rfl))
  exact (hdrop.trans hdestroy).trans (quiet hend)

theorem finish (hq : s.queue = none) (hs : s.state ≠ .destroyed) : Acts out s (s.finish out) := by
  let s₁ : Supervisor σ := { s with timer := s.timer.cancel }
  have htimer : Acts out s s₁ := quiet (.withTimer _)
  have hretire : Act out s₁ _ := .retire hq hs
  rw [finish_of_none hq hs]
  have hend : Quiet ((s₁.setState .destroyed).emit .stopped) _ :=
    .withPhase .ended (.inr nofun) (.inr (by simpa [emit, note] using hq))
  exact (htimer.tail hretire).trans (quiet (hend.trans (.note rfl)))

theorem teardown (ha : s.Alive) (hs : s.state ≠ .destroyed)
    (hr : s.stopRequested = true) : Acts out s (s.teardown out now) := by
  let s₁ : Supervisor σ := { s with timer := s.timer.cancel }
  have htimer : Acts out s s₁ := quiet (.withTimer _)
  have hdestroy : Acts out s₁ (s₁.destroyQueue out) :=
    destroyQueue ha (Quiet.not_receptive (.inr hr))
  refine (htimer.trans hdestroy).trans ?_
  unfold Supervisor.teardown
  simp only
  split
  · exact finish (destroyQueue_queue out s₁) (by simpa using hs)
  · let deadline := (s₁.destroyQueue out).config.closeTimeout.after now
    have hclose : Quiet (s₁.destroyQueue out) _ :=
      .withPhase (.closing deadline) (.inr nofun) (.inr (destroyQueue_queue out s₁))
    exact quiet (hclose.trans (.note rfl))

theorem connect (hb : s.Bare) (hs : s.state ≠ .destroyed) : Acts out s (s.connect out now) := by
  unfold Supervisor.connect
  split
  · rename_i h
    rw [Sound.halted_iff hs] at h
    exact teardown (alive_of_none hb.queue) hs h
  · have hstate : Quiet s (s.setState .connecting) := .setState _ hs (by decide)
    have hphase : Quiet (s.setState .connecting) { s.setState .connecting with
        phase := .connecting } :=
      .withPhase .connecting (.inr nofun) (.inr (by simpa using hb.queue))
    exact quiet (((hstate.trans hphase).trans (.withTotals _)).trans (.note rfl))

theorem lose (why : Option Fault) (ha : s.Alive)
    (hs : s.state ≠ .destroyed) : Acts out s (s.lose out now why) := by
  have hdrop : Acts out s s.dropTransport := dropTransport s
  have hr : ¬ Receptive s.dropTransport := Quiet.not_receptive (.inl (dropTransport_transport s))
  have hdestroy : Acts out s.dropTransport (s.dropTransport.destroyQueue out) :=
    destroyQueue (by simpa [Alive] using ha) hr
  have hdisconnect : Act out (s.dropTransport.destroyQueue out) _ :=
    .disconnect (why.map Fault.message) (destroyQueue_queue out _)
  refine ((hdrop.trans hdestroy).tail hdisconnect).trans ?_
  unfold Supervisor.lose
  simp only
  generalize hs₁ : (s.dropTransport.destroyQueue out).emit _ = s₁
  have ht : s₁.transport = none := by simp [← hs₁, emit, note]
  have hs : s₁.state ≠ .destroyed := by simpa [← hs₁, emit, note] using hs
  have hq : s₁.queue = none := by simp [← hs₁, emit, note, destroyQueue_queue]
  split
  · exact finish hq hs
  · have hwait : Quiet s₁ { s₁ with phase := .waiting } := .withPhase .waiting (.inl ht) (.inr hq)
    have harm := (hwait.trans (.withTimer (s₁.timer.arm now))).trans
      (.note (e := .armed now (s₁.timer.delay.alarm now)) rfl)
    exact quiet ((harm.trans (.setState _ hs (by decide))).trans (.emit rfl))

theorem opened (hb : s.Bare) (hs : s.state ≠ .destroyed) : Acts out s s.opened := by
  let s₁ : Supervisor σ := { s with phase := .waiting, transport := some s.totals.connects }
  have hopen : Act out s (s₁.note (.opened s.totals.connects)) := .opened _ hb.transport hb.queue
  have hstate : Quiet (s₁.note (.opened s.totals.connects)) _ :=
    .setState .opened hs (by decide)
  exact (Relation.ReflTransGen.single hopen).trans
    (quiet (hstate.trans (.emit (e := .connected s.url) rfl)))

theorem stopIf (s : Supervisor σ) (stop : Bool) : Acts out s (s.stopIf stop) := by
  cases stop with
  | false => exact .refl
  | true => exact quiet .requestStop

theorem playActs (h : PlayActs out s s') : Acts out s s' := by
  induction h with
  | refl => exact .refl
  | tail _ act ih => exact ih.tail (.play act)

theorem plays (h : Plays out s s') (ha : s.Alive) : Acts out s s' := by
  cases h with
  | well h => exact playActs h
  | crash h => exact (playActs h).trans (crash (h.alive ha))
  | breakdown h hb =>
    exact ((playActs h).tail (.breakdown hb)).trans (crash (hb.alive (h.alive ha)))

theorem frame {f : ByteArray} (h : Sound s) (hp : s.phase = .waiting)
    (ht : s.transport.isSome = true) : Acts out s (s.handleFrame out f) := by
  cases hr : s.halted with
  | true =>
    rw [handleFrame, hr, if_pos rfl]
    exact .refl
  | false =>
    obtain ⟨_, hq, _⟩ := h.of_open hp ht
    exact plays (Plays.frame f ⟨hp, ht, hr⟩ hq) fun q h => (hq q h).alive

theorem notice {n : Notice} {rest : List Notice} (h : Sound s) (hp : s.phase = .waiting)
    (hn : s.notices = n :: rest) :
    Acts out s ({ s with notices := rest }.handleNotice out n) := by
  have hq : ∀ q, s.queue = some q → q.Ready := h.ready hp
  exact plays (Plays.notice hp hn hq) fun q h => (hq q h).alive

theorem handle {i : Input} (h : Sound s) (hi : Sound.Comes s now i) :
    Acts out s (s.handle out now i) := by
  cases hi with
  | begin _ hs hb => exact connect hb hs
  | stop hp hs ha hr =>
    have hne : s.state ≠ .destroyed := h.state_ne (by rcases hp with hp | hp <;> simp [hp])
    rw [Supervisor.handle]
    unfold abandonConnect
    split
    · have habandoned : Quiet s (s.note (.abandoned s.totals.connects)) := .note rfl
      exact (quiet habandoned).trans (teardown ha hne hr)
    · exact teardown ha hne hr
  | reconnect _ hs ht hq =>
    have hfired : Quiet s _ := (Quiet.withTimer s.timer.cancel).trans (.note (e := .fired now) rfl)
    exact (quiet hfired).trans (connect ⟨ht, hq, rfl⟩ hs)
  | notice hp hn =>
    rw [Supervisor.handle, hn]
    exact notice h hp hn
  | connected _ hs hb => exact opened hb hs
  | connectFailed why _ hs hb =>
    have hfailed : Quiet s (s.note (.connectFailed s.totals.connects)) := .note rfl
    exact (quiet hfailed).trans (lose (some why) (alive_of_none hb.queue) hs)
  | received r hp hs ha ht =>
    cases r with
    | frame f => exact frame h hp ht
    | closed => exact lose none ha hs
    | failed why => exact lose (some why) ha hs
  | closed _ _ hs hq =>
    exact (dropTransport s).trans (finish (by simpa using hq) (by simpa using hs))
  | broken _ _ ha => exact crash ha

end Acts

theorem Supervisor.alive_notify {s : Supervisor σ} (ha : s.Alive) (n : Notice) :
    (s.notify n).Alive := by
  unfold Supervisor.notify
  simp only
  split <;> exact ha

theorem Acts.of_admits {out : Surface σ} {s : Supervisor σ} {now : Nat} {i : Input} (h : Sound s)
    (hi : Admits s now i) (stop : Bool) : Acts out s ((s.stopIf stop).handle out now i) :=
  (stopIf s stop).trans (handle (h.stopIf stop) (h.comes hi stop))

/-- What every session starts with is true at every moment, if acts keep it, and notices and
changes of the surface from outside as well. -/
theorem Reachable.invariant {out : Surface σ} {P : Supervisor σ → Prop}
    (hspawn : ∀ url config surface tracing, P (.spawn url config surface tracing))
    (hact : ∀ s s', s.Alive → Act out s s' → P s → P s') (hnotify : ∀ s n, P s → P (s.notify n))
    (htouch : ∀ s x, P s → P { s with surface := x }) {m : Moment σ} (h : Reachable out m) :
    m.supervisor.Alive ∧ P m.supervisor := by
  -- That queues are alive is carried along, since without it no queue is seen to be released.
  induction h with
  | spawn => exact ⟨alive_of_none rfl, hspawn _ _ _ _⟩
  | step hm step ih =>
    obtain ⟨ha, hp⟩ := ih
    cases step with
    | pass => exact ⟨ha, hp⟩
    | stop => exact (Acts.stopIf _ true).keep hact ha hp
    | notify n => exact ⟨alive_notify ha n, hnotify _ n hp⟩
    | touch x => exact ⟨ha, htouch _ x hp⟩
    | handle stop hi => exact (Acts.of_admits hm.sound hi stop).keep hact ha hp

theorem Reachable.alive {out : Surface σ} {m : Moment σ} (h : Reachable out m) :
    m.supervisor.Alive :=
  (h.invariant (P := fun _ => True) (fun _ _ _ _ => trivial) (fun _ _ _ _ _ => trivial)
    (fun _ _ _ => trivial) fun _ _ _ => trivial).1

end LivePlayback
