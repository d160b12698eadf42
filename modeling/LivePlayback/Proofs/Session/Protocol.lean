import LivePlayback.Proofs.Session.Passages
import LivePlayback.Rehearsal.Stage

/-!
# The event protocol

The events of a session are words of a small grammar: attempts, each of them lost and tried again,
and a last one that is stopped. Only a stop that comes while a loss is being handled cuts an attempt
short.
-/

namespace LivePlayback
set_option autoImplicit false

variable {σ : Type}

namespace Protocol

/-- What is told of a connection while it is open. -/
inductive Opened (url : String) : List Event → Prop where
  | mk {answers : List Event} (h : ∀ e ∈ answers, e.isAnswer = true) :
      Opened url (.connected url :: answers)

/-- A connection that is lost; one that could not be opened is lost for a reason. -/
inductive Loss (url : String) : List Event → Prop where
  | failed (why : String) : Loss url [.disconnected (some why)]
  | lost {opened : List Event} (h : Opened url opened) (why : Option String) :
      Loss url (opened ++ [.disconnected why])

inductive Attempts (url : String) (delay : Duration) : List Event → Prop where
  | none : Attempts url delay []
  | again {told loss : List Event} (h : Attempts url delay told) (h' : Loss url loss) :
      Attempts url delay (told ++ (loss ++ [.reconnecting delay]))

/-- The last attempt, with or without a connection. -/
inductive Final (url : String) : List Event → Prop where
  | unopened : Final url [.stopped]
  | opened {opened : List Event} (h : Opened url opened) : Final url (opened ++ [.stopped])

inductive Word (url : String) (delay : Duration) : List Event → Prop where
  | mk {told last : List Event} (h : Attempts url delay told) (h' : Final url last) :
      Word url delay (told ++ last)

/-- A session that is stopped instead of trying again. -/
inductive CutShort (url : String) (delay : Duration) : List Event → Prop where
  | mk {told loss : List Event} (h : Attempts url delay told) (h' : Loss url loss) :
      CutShort url delay (told ++ (loss ++ [.stopped]))

/-- Between two attempts, or with a connection open. -/
inductive Underway (url : String) (delay : Duration) : List Event → Prop where
  | between {told : List Event} (h : Attempts url delay told) : Underway url delay told
  | opened {told opened : List Event} (h : Attempts url delay told) (h' : Opened url opened) :
      Underway url delay (told ++ opened)

section

variable {url : String} {delay : Duration} {told : List Event}

theorem Opened.answer {opened answers : List Event} (h : Opened url opened)
    (ha : ∀ e ∈ answers, e.isAnswer = true) : Opened url (opened ++ answers) := by
  cases h with
  | mk h' =>
    refine .mk fun e he => ?_
    rcases List.mem_append.mp he with he | he
    · exact h' e he
    · exact ha e he

theorem Opened.stopped_not_mem (h : Opened url told) : .stopped ∉ told := by
  cases h with
  | mk h' =>
    intro hs
    rcases List.mem_cons.mp hs with hs | hs
    · cases hs
    · cases h' _ hs

theorem Loss.stopped_not_mem (h : Loss url told) : .stopped ∉ told := by
  cases h with
  | failed => simp
  | lost h => simpa using h.stopped_not_mem

theorem Attempts.stopped_not_mem (h : Attempts url delay told) : .stopped ∉ told := by
  induction h with
  | none => simp
  | again _ h' ih => simpa using ⟨ih, h'.stopped_not_mem⟩

theorem Underway.stopped_not_mem (h : Underway url delay told) : .stopped ∉ told := by
  cases h with
  | between h => exact h.stopped_not_mem
  | opened h h' => simpa using ⟨h.stopped_not_mem, h'.stopped_not_mem⟩

/-- Whatever is underway may be stopped next. -/
theorem Underway.word (h : Underway url delay told) : Word url delay (told ++ [.stopped]) := by
  cases h with
  | between h => exact .mk h .unopened
  | opened h h' =>
    rw [List.append_assoc]
    exact .mk h (.opened h')

/-- A stop ends every word, and is told once. -/
theorem Word.stopped (h : Word url delay told) :
    ∃ before, told = before ++ [.stopped] ∧ .stopped ∉ before := by
  cases h with
  | @mk told _ h h' =>
    cases h' with
    | unopened => exact ⟨told, rfl, h.stopped_not_mem⟩
    | @opened opened h' =>
      refine ⟨told ++ opened, (List.append_assoc ..).symm, ?_⟩
      simpa using ⟨h.stopped_not_mem, h'.stopped_not_mem⟩

theorem CutShort.stopped (h : CutShort url delay told) :
    ∃ before, told = before ++ [.stopped] ∧ .stopped ∉ before := by
  cases h with
  | @mk told loss h h' =>
    refine ⟨told ++ loss, (List.append_assoc ..).symm, ?_⟩
    simpa using ⟨h.stopped_not_mem, h'.stopped_not_mem⟩

end

/-- What a session has told in each of its states; it may be cut short if that was possible. -/
inductive Told (url : String) (delay : Duration) (cut : Prop) :
    SessionState → List Event → Prop where
  | disconnected : Told url delay cut .disconnected []
  | connecting {told : List Event} (h : Attempts url delay told) :
      Told url delay cut .connecting told
  | opened {told opened : List Event} (h : Attempts url delay told) (h' : Opened url opened) :
      Told url delay cut .opened (told ++ opened)
  | reconnectPending {told : List Event} (h : Attempts url delay told) :
      Told url delay cut .reconnectPending told
  | word {told : List Event} (h : Word url delay told) : Told url delay cut .destroyed told
  | cutShort {told : List Event} (h : CutShort url delay told) (hc : cut) :
      Told url delay cut .destroyed told

namespace Told

variable {url : String} {delay : Duration} {cut cut' : Prop} {state : SessionState}
  {told : List Event}

theorem mono (h : Told url delay cut state told)
    (hc : state = .destroyed → cut → cut') : Told url delay cut' state told := by
  cases h with
  | disconnected => exact .disconnected
  | connecting h => exact .connecting h
  | opened h h' => exact .opened h h'
  | reconnectPending h => exact .reconnectPending h
  | word h => exact .word h
  | cutShort h hcut => exact .cutShort h (hc rfl hcut)

theorem underway (h : Told url delay cut state told) (hs : state ≠ .destroyed) :
    Underway url delay told := by
  cases h with
  | disconnected => exact .between .none
  | connecting h | reconnectPending h => exact .between h
  | opened h h' => exact .opened h h'
  | word | cutShort => exact absurd rfl hs

theorem answer {answers : List Event} (h : Told url delay cut state told)
    (ha : ∀ e ∈ answers, e.isAnswer = true ∧ state = .opened) :
    Told url delay cut state (told ++ answers) := by
  cases answers with
  | nil => rwa [List.append_nil]
  | cons e answers =>
    -- There is an answer only if a connection is open.
    obtain rfl : state = .opened := (ha e List.mem_cons_self).2
    cases h with
    | opened h h' =>
      rw [List.append_assoc]
      exact .opened h (h'.answer fun e he => (ha e he).1)

end Told

end Protocol

open Protocol

def Input.isLoss : Input → Bool
  | .connectFailed _ | .received .closed | .received (.failed _) => true
  | _ => false

namespace Supervisor

variable {out : Surface σ} {s s' : Supervisor σ} {now : Nat} {i : Input} {cut : Prop}
  {first : Journal} {before : List Event}

theorem Loses.isLoss {why : Option String} (h : Loses s i why first) : i.isLoss = true := by
  cases h <;> rfl

/-- The last attempt is lost, whether its connection was opened or not. -/
theorem Loses.told {why : Option String} (h : Loses s i why first) (hs : Sound s)
    (ht : Told s.url s.timer.delay cut s.state before) :
    ∃ told loss, Attempts s.url s.timer.delay told ∧ Loss s.url loss ∧
      before ++ [.disconnected why] = told ++ loss := by
  cases h with
  | failed why hp =>
    rw [(hs.of_connecting hp).1] at ht
    cases ht with
    | connecting h => exact ⟨before, _, h, .failed _, rfl⟩
  | closed hp ho | broken _ hp ho =>
    rw [(hs.of_open hp (by simp [ho])).1] at ht
    cases ht with
    | opened h h' => exact ⟨_, _, h, .lost h' _, List.append_assoc ..⟩

theorem Retires.told (h : Retires s now i first) (hs : Sound s)
    (ht : Told s.url s.timer.delay cut s.state before) :
    Told s.url s.timer.delay (cut ∨ i.isLoss = true) .destroyed
      (before ++ first.events ++ [.stopped]) := by
  cases h with
  | unstarted hp | overdue hp | abandoned hp | idle hp | closed hp =>
    have hunderway := ht.underway (hs.state_ne (by simp [hp]))
    rw [← List.append_nil before] at hunderway
    exact .word hunderway.word
  | @lost _ why first hl =>
    obtain ⟨told, loss, hattempts, hloss, heq⟩ := hl.told hs ht
    have hevents : Journal.events (.event (.disconnected why) :: first) = [.disconnected why] := by
      rw [← List.singleton_append, Journal.events_append, hl.events]
      rfl
    rw [hevents, heq, List.append_assoc]
    exact .cutShort (.mk hattempts hloss) (.inr hl.isLoss)

theorem Passage.told {phase : Phase} {told : Journal} (h : Passage s now i phase told)
    (hs : Sound s) (ht : Told s.url s.timer.delay cut s.state before) :
    Told s.url s.timer.delay (cut ∨ i.isLoss = true) (told.shown s.state)
      (before ++ told.events) := by
  cases h with
  | begin hp =>
    rw [(hs.of_spawned hp).1] at ht
    cases ht with
    | disconnected => exact .connecting .none
  | reconnect hp ho =>
    rw [(hs.of_lost hp ho).1] at ht
    cases ht with
    | reconnectPending h =>
      rw [← List.append_nil before] at h
      exact .connecting h
  | opened hp =>
    rw [(hs.of_connecting hp).1] at ht
    cases ht with
    | connecting h => exact .opened h (.mk nofun)
  | @lost _ why first hl =>
    obtain ⟨told, loss, hattempts, hloss, heq⟩ := hl.told hs ht
    rw [Journal.shown_append, Journal.events_append, hl.events]
    have hagain := Attempts.again hattempts hloss
    rw [← List.append_assoc, ← heq, List.append_assoc] at hagain
    exact .reconnectPending hagain
  | closing =>
    rw [← List.append_nil before] at ht
    exact ht.mono fun _ => .inl
  | @retired _ first hr =>
    rw [Journal.shown_append, Journal.events_append, ← List.append_assoc]
    exact hr.told hs ht
  | broken =>
    rw [Journal.shown, Journal.states_transportDropped, Journal.events_transportDropped,
      List.append_nil]
    exact ht.mono fun _ => .inl

theorem Handled.told (h : Handled out s now i s') (hs : Sound s)
    (ht : Told s.url s.timer.delay cut s.state s.journal.events) :
    Told s'.url s'.timer.delay (cut ∨ i.isLoss = true) s'.state s'.journal.events := by
  have hplays (hp : s.phase = .waiting) (h : Plays out s s') :
      Told s'.url s'.timer.delay cut s'.state s'.journal.events := by
    obtain ⟨_, _, _, htells⟩ := Tells.plays h
    obtain ⟨answers, ha, hevents⟩ := h.answers
    rw [htells.url, htells.delay, h.states.2, hevents]
    exact ht.answer fun e he => ⟨(ha e he).1, (hs.of_open hp (ha e he).2).1⟩
  cases h with
  | frame hp _ h | notice hp _ h => exact (hplays hp h).mono fun _ => .inl
  | passage h hp =>
    rw [h.url, h.delay, h.state, h.events]
    exact hp.told hs ht

end Supervisor

theorem Admits.running_of_loss {s : Supervisor σ} {now : Nat} {i : Input} (h : Admits s now i)
    (hl : i.isLoss = true) : s.stopRequested = false := by
  cases h with
  | connectFailed _ _ hs | received _ _ hs => exact hs
  | _ => cases hl

theorem Sound.stopped_of_destroyed {s : Supervisor σ} (h : Sound s) (hs : s.state = .destroyed) :
    s.stopRequested = true := by
  cases h with
  | ended _ hr => exact hr
  | _ => simp_all

/-- On the way from one moment to another a stop came while a loss was being handled. -/
inductive StoppedInLoss (out : Surface σ) (m₀ m : Moment σ) : Prop where
  | mk {m₁ : Moment σ} {i : Input} (stop : Bool) (h : Run out m₀ m₁)
      (hi : Admits m₁.supervisor m₁.now i) (hl : i.isLoss = true)
      (hr : m₁.supervisor.stopRequested = false)
      (hr' : (m₁.handle out i stop).supervisor.stopRequested = true)
      (h' : Run out (m₁.handle out i stop) m) : StoppedInLoss out m₀ m

theorem Run.told {out : Surface σ} {m₀ m : Moment σ} (hm : Reachable out m₀)
    (h₀ : Told m₀.supervisor.url m₀.supervisor.timer.delay False m₀.supervisor.state
      m₀.journal.events) (h : Run out m₀ m) :
    m.supervisor.url = m₀.supervisor.url ∧
    m.supervisor.timer.delay = m₀.supervisor.timer.delay ∧
    Told m.supervisor.url m.supervisor.timer.delay (StoppedInLoss out m₀ m) m.supervisor.state
      m.journal.events := by
  induction h with
  | refl => exact ⟨rfl, rfl, h₀.mono fun _ => False.elim⟩
  | @tail m m' h step ih =>
    -- What cut an attempt short lies on the way, and stays on it when the way goes on.
    obtain ⟨hurl, hdelay, htold⟩ := ih
    have hm' : Reachable out m := hm.run h
    have hcut : StoppedInLoss out m₀ m → StoppedInLoss out m₀ m' := by
      rintro ⟨stop, h₁, hi, hl, hr, hr', h₂⟩
      exact ⟨stop, h₁, hi, hl, hr, hr', h₂.trans (.single step)⟩
    have hidle {s : Supervisor σ} (hi : Supervisor.Idles m.supervisor s) :
        s.url = m₀.supervisor.url ∧
        s.timer.delay = m₀.supervisor.timer.delay ∧
        Told s.url s.timer.delay (StoppedInLoss out m₀ m) s.state s.journal.events := by
      rw [hi.passes.url, hi.passes.delay, hi.state, hi.events]
      exact ⟨hurl, hdelay, htold⟩
    cases step.takes hm'.sound with
    | idle hi =>
      obtain ⟨hurl', hdelay', htold'⟩ := hidle hi
      exact ⟨hurl', hdelay', htold'.mono fun _ => hcut⟩
    | @handle i stop hi hs hh =>
      obtain ⟨hurl', hdelay', htold'⟩ := hidle (.stopIf _ stop)
      obtain ⟨_, htells⟩ := hh.tells
      refine ⟨htells.url.trans hurl', htells.delay.trans hdelay', ?_⟩
      refine (hh.told hs htold').mono fun hdestroyed hc => ?_
      -- A session that ends with a loss was not stopped when the loss came, and is stopped now.
      rcases hc with hc | hl
      · exact hcut hc
      · have hsound : Sound (m.handle out i stop).supervisor := (hm'.step step).sound
        exact ⟨stop, h, hi, hl, hi.running_of_loss hl, hsound.stopped_of_destroyed hdestroyed,
          .refl _⟩

/-- The events of a session, from the moment it was spawned to a later one. -/
structure FollowsProtocol (out : Surface σ) (url : String) (delay : Duration)
    (m₀ m : Moment σ) : Prop where
  underway : m.supervisor.phase ≠ .ended → Underway url delay m.journal.events
  /-- A session that has ended has told a whole word. Only the stop that comes too late to keep the
  loss from being told leaves out the rest of the attempt. -/
  ended : m.supervisor.phase = .ended → Word url delay m.journal.events ∨
    CutShort url delay m.journal.events ∧ StoppedInLoss out m₀ m
  whole : Word url delay m.journal.events ∨ CutShort url delay m.journal.events →
    m.supervisor.phase = .ended
  begins : ∃ word, m.journal.events <+: word ∧ (Word url delay word ∨
    CutShort url delay word ∧ StoppedInLoss out m₀ m)
  once : m.journal.events.count .stopped ≤ 1
  last : .stopped ∈ m.journal.events → m.journal.events.getLast? = some .stopped

/-- Whatever its connector, its transports and its surface do, a session follows the protocol. -/
theorem events_follow_protocol {out : Surface σ} {now : Nat} {url : String} {config : Config}
    {x : σ} {tracing : Bool} {m : Moment σ} (h : Run out ⟨now, .spawn url config x tracing⟩ m) :
    FollowsProtocol out url config.reconnectDelay ⟨now, .spawn url config x tracing⟩ m := by
  have hspawn : Reachable out ⟨now, .spawn url config x tracing⟩ := .spawn now url config x tracing
  have hm : Reachable out m := hspawn.run h
  obtain ⟨hurl, hdelay, htold⟩ := h.told hspawn .disconnected
  rw [hurl, hdelay] at htold
  have hunderway (hp : m.supervisor.phase ≠ .ended) :
      Underway url config.reconnectDelay m.journal.events := htold.underway (hm.sound.state_ne hp)
  have hended (hp : m.supervisor.phase = .ended) :
      Word url config.reconnectDelay m.journal.events ∨
        CutShort url config.reconnectDelay m.journal.events ∧
          StoppedInLoss out ⟨now, .spawn url config x tracing⟩ m := by
    rw [hm.sound.destroyed_iff.mpr hp] at htold
    cases htold with
    | word h => exact .inl h
    | cutShort h hc => exact .inr ⟨h, hc⟩
  have hstopped (hp : m.supervisor.phase = .ended) :
      ∃ before, m.journal.events = before ++ [.stopped] ∧ .stopped ∉ before := by
    rcases hended hp with h | ⟨h, _⟩
    · exact h.stopped
    · exact h.stopped
  constructor
  case underway => exact hunderway
  case ended => exact hended
  case whole =>
    intro hw
    refine Decidable.byContradiction fun hp => (hunderway hp).stopped_not_mem ?_
    rcases hw with h | h
    · obtain ⟨before, he, _⟩ := h.stopped
      simp [he]
    · obtain ⟨before, he, _⟩ := h.stopped
      simp [he]
  case begins =>
    by_cases hp : m.supervisor.phase = .ended
    · exact ⟨_, List.prefix_rfl, hended hp⟩
    · exact ⟨_, List.prefix_append _ _, .inl (hunderway hp).word⟩
  case once =>
    by_cases hp : m.supervisor.phase = .ended
    · obtain ⟨before, he, hnot⟩ := hstopped hp
      simp [he, List.count_eq_zero_of_not_mem hnot]
    · simp [List.count_eq_zero_of_not_mem (hunderway hp).stopped_not_mem]
  case last =>
    intro hs
    by_cases hp : m.supervisor.phase = .ended
    · obtain ⟨before, he, _⟩ := hstopped hp
      simp [he]
    · exact absurd hs (hunderway hp).stopped_not_mem

/-- A transport that has the session stopped while it ends. -/
theorem events_follow_protocol_of_loss :
    let out := Rehearsal.Stage.surface
    let x := Rehearsal.Stage.create false
    let m := (Moment.scripted out x [] 2).handle out (.received .closed) true
    m.supervisor.phase = .ended ∧
      m.journal.events = [.connected "ws://camera", .disconnected none, .stopped] ∧
      FollowsProtocol out "ws://camera" ({} : Config).reconnectDelay
        ⟨0, .spawn "ws://camera" {} x false⟩ m := by
  intro out x m
  have hopened : Run out ⟨0, .spawn "ws://camera" {} x false⟩ (Moment.scripted out x [] 2) :=
    Supervisor.run_run 2 _ []
  have hlost : Step out (Moment.scripted out x [] 2) m :=
    .handle true (.received .closed (by decide +kernel) (by decide +kernel) (by decide +kernel))
  exact ⟨by decide +kernel, by decide +kernel,
    events_follow_protocol (hopened.trans (.single hlost))⟩

end LivePlayback
