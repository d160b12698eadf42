import LivePlayback.Proofs.Player.Loss
import LivePlayback.Proofs.Player.Shutdown
import LivePlayback.Proofs.Session.Perseverance
import Mathlib.Algebra.Ring.Nat

/-!
# Starting with any configuration

A session starts with any valid configuration, if there is room for the events that it is to keep,
and a player can start one after the other as long as none of them breaks down. Whatever the delays
are, the timer and the deadline of a close can be set. Without that room nothing is ever started,
and the first load takes the surface with it.
-/

namespace LivePlayback
set_option autoImplicit false

open Supervisor

variable {σ : Type}

namespace Broadcast

/-- The most events that a buffer can be made for. -/
def largest : Nat := 2 ^ 56

variable {capacity : Nat}

theorem kept_lt_iff (n : Nat) : kept capacity < 2 ^ (n + 1) ↔ capacity ≤ 2 ^ n := by
  unfold kept
  split
  · rename_i hle
    have hone : 1 ≤ 2 ^ n := Nat.one_le_two_pow
    have hdouble : 2 ^ (n + 1) = 2 * 2 ^ n := Nat.pow_succ'
    omega
  · rename_i hgt
    have hne : capacity - 1 ≠ 0 := by omega
    calc Nat.pow 2 ((capacity - 1).log2 + 1) < 2 ^ (n + 1)
      _ ↔ (capacity - 1).log2 + 1 < n + 1 := Nat.pow_lt_pow_iff_right (by decide)
      _ ↔ (capacity - 1).log2 < n := Nat.succ_lt_succ_iff
      _ ↔ capacity - 1 < 2 ^ n := Nat.log2_lt hne
      _ ↔ capacity ≤ 2 ^ n := by omega

/-- Buffers hold a power of two, and the next one after the largest is out of reach. -/
theorem available_iff : available capacity = true ↔ capacity ≤ largest := by
  have hroom : available capacity = true ↔ kept capacity < 2 ^ (56 + 1) := by
    unfold available itemSize maxMemory
    rw [decide_eq_true_iff]
    omega
  rw [hroom, kept_lt_iff]
  rfl

theorem available_eq_false_iff : available capacity = false ↔ largest < capacity := by
  rw [← Bool.not_eq_true, available_iff, Nat.not_le]

end Broadcast

namespace Config

variable {config valid : Config}

theorem validate_eq_ok_iff : config.validate = .ok valid ↔
    valid = config ∧ config.reconnectDelayMillis ≠ 0 ∧ config.eventCapacity ≠ 0 := by
  unfold validate
  split
  · simp [*]
  · split
    · simp [*]
    · simp [*, eq_comm]

theorem reconnectDelay_pos (h : config.reconnectDelayMillis ≠ 0) :
    0 < config.reconnectDelay.nanos := by
  have hpos : 0 < config.reconnectDelayMillis.toNat := by
    apply Nat.pos_of_ne_zero
    intro hzero
    exact h (UInt64.toNat_inj.mp hzero)
  exact Nat.mul_pos hpos (by decide)

end Config

/-! ## Timers -/

section

variable {out : Surface σ} {m : Moment σ} {s : Supervisor σ}

theorem Supervisor.turn_eq_reconnect_iff (hp : s.phase = .waiting) (hr : s.stopRequested = false)
    (now : Nat) : s.turn now = .take .reconnect ↔ s.timer.due now = true := by
  simp only [turn, hp, hr, Bool.false_eq_true, if_false]
  by_cases hdue : s.timer.due now = true
  · simp [hdue]
  · rw [if_neg hdue]
    cases s.notices with
    | cons n rest => simp [hdue]
    | nil =>
      by_cases ht : s.transport.isSome = true
      · simp [ht, hdue]
      · simp [ht, hdue]

/-- A loss sets the timer, unless the session is stopped by then. -/
theorem Moment.waiting_of_loss {i : Input} (hm : Reachable out m)
    (hi : Admits m.supervisor m.now i) (stop : Bool) (hl : i.isLoss = true)
    (hr : (m.handle out i stop).supervisor.stopRequested = false) :
    (m.handle out i stop).supervisor.phase = .waiting ∧
      (m.handle out i stop).supervisor.timer.deadline =
        some (m.supervisor.timer.delay.alarm m.now) := by
  obtain ⟨told, hmove, _⟩ := Moment.moves hm hi stop
  cases hmove with
  | lost _ _ hp' _ hd' =>
    rw [stopIf_timer] at hd'
    exact ⟨hp', hd'⟩
  | givenUp _ hp' =>
    have hsound : Sound (m.handle out i stop).supervisor := (hm.step (.handle stop hi)).sound
    cases hr.symm.trans (hsound.stopped_of_ended hp')
  | start | unstarted | again | tooLate | opened => cases hl
  | still _ hl' | done _ hl' => cases hl'.symm.trans hl

/-- How a session gets on with the delays of its configuration. -/
structure Moment.SetsTimers (out : Surface σ) (config : Config) (m : Moment σ) : Prop where
  /-- A loss sets the timer, unless the session is stopped by then. It goes off later, by no more
  than the longest time, and the session connects again from then on. -/
  armed : ∀ i stop, Admits m.supervisor m.now i → i.isLoss = true →
    (m.handle out i stop).supervisor.stopRequested = false →
      ∃ deadline, deadline = config.reconnectDelay.alarm m.now ∧ m.now < deadline ∧
        deadline ≤ Duration.longest.after m.now ∧
        (m.handle out i stop).supervisor.wakeAt = some deadline ∧
        ∀ later, (m.handle out i stop).supervisor.turn later = .take .reconnect ↔
          deadline ≤ later
  /-- When a stop is seen, a transport is given its time to close; without one that is the end. -/
  closing : m.supervisor.Unaware → m.supervisor.stopRequested = true →
    ∃ i, m.supervisor.turn m.now = .take i ∧
      (m.supervisor.transport.isSome = true → (m.supervisor.handle out m.now i).wakeAt =
        some (config.closeTimeout.after m.now)) ∧
      (m.supervisor.transport = none → (m.supervisor.handle out m.now i).phase = .ended)

theorem Reachable.setsTimers (hm : Reachable out m)
    (hdelay : m.supervisor.timer.delay = m.supervisor.config.reconnectDelay)
    (hpos : 0 < m.supervisor.config.reconnectDelay.nanos) :
    m.SetsTimers out m.supervisor.config where
  armed := by
    intro i stop hi hl hr
    obtain ⟨hp, hd⟩ := Moment.waiting_of_loss hm hi stop hl hr
    rw [hdelay] at hd
    refine ⟨_, rfl, ?_, ?_, ?_, ?_⟩
    · have hlongest : 0 < Duration.longest.nanos := by decide
      unfold Duration.alarm
      omega
    · unfold Duration.alarm Duration.after
      omega
    · rw [wakeAt, hp]
      exact hd
    · intro later
      rw [turn_eq_reconnect_iff hp hr]
      exact ReconnectTimer.due_iff hd later
  closing := by
    intro ha hr
    obtain ⟨i, hi, hsees⟩ := exists_seesStop out m.now hm.sound ha hr
    refine ⟨i, hi, ?_, hsees.ended⟩
    intro ht
    rw [wakeAt, hsees.closing ht]

theorem Run.setsTimers {config : Config} {url : String} {x : σ} {tracing : Bool} {now : Nat}
    (h : Run out ⟨now, .spawn url config x tracing⟩ m) (hpos : 0 < config.reconnectDelay.nanos) :
    m.SetsTimers out config := by
  have hspawn : Reachable out ⟨now, .spawn url config x tracing⟩ := .spawn now url config x tracing
  obtain ⟨_, htells⟩ := h.tells hspawn
  have hconfig : m.supervisor.config = config := htells.config
  have hdelay : m.supervisor.timer.delay = config.reconnectDelay := htells.delay
  rw [← hconfig] at hdelay hpos ⊢
  exact (hspawn.run h).setsTimers hdelay hpos

end

/-! ## Players -/

/-- What calls give when there is no room for the events of a session. -/
def Completion.withoutRoom : List Call → List Completion
  | [] => []
  | .stop :: calls => .done :: withoutRoom calls
  | .load _ :: calls => .broken :: calls.map Call.afterLoss

namespace Succession

variable {out : Surface σ} {config : Config} {w w' : Succession σ}
  {answers : List (Call × Completion)}

theorem Kept.goes_without_room (h : Kept out config w) (hnil : w.sessions = [])
    (hroom : Broadcast.available config.eventCapacity.toNat = false)
    (hm : Goes out w answers w') :
    w'.sessions = [] ∧ answers.map Prod.snd = Completion.withoutRoom (answers.map Prod.fst) := by
  induction hm with
  | rest => exact ⟨hnil, rfl⟩
  | @move w w₁ w' a answers hm hgoes ih =>
    cases hm with
    | pass hn => exact ih (h.pass hn) hnil
    | touch f => exact ih (h.touch f) hnil
    | act hs | collapse hs =>
      rw [hnil] at hs
      cases hs
    | begin c =>
      refine ih (h.begin c) ?_
      simp only [Succession.begin, hnil, List.modify_nil]
      split <;> rfl
    | @finish c tracing _ hr =>
      cases c with
      | stop =>
        have hfinish := h.finish_stop_of_nil hnil tracing
        rw [hfinish] at ih ⊢
        obtain ⟨hnil', hanswers⟩ := ih h.answered hnil
        exact ⟨hnil', congrArg (Completion.done :: ·) hanswers⟩
      | load url =>
        have hfinish := h.finish_load_of_no_room hr tracing url hroom
        rw [hfinish] at hgoes ⊢
        have hbereft : Bereft { w with player := ⟨config, none, none⟩, call := none } :=
          .of_nil hnil rfl rfl
        obtain ⟨_, hremains, hanswers, _⟩ := hbereft.goes hgoes
        refine ⟨?_, congrArg (Completion.broken :: ·) hanswers⟩
        apply List.eq_nil_of_length_eq_zero
        rw [hremains.length, hnil]
        rfl

/-- A player that is sound, or has lost its surface to a session that broke down. -/
inductive Sustained (out : Surface σ) (config : Config) (w : Succession σ) : Prop where
  | kept (h : Kept out config w)
  | bereft (h : Bereft w) (hs : ∃ s ∈ w.sessions, s.phase = .crashed) : Sustained out config w

namespace Sustained

theorem of_fall {k : Nat} {s s' : Supervisor σ} (h : Kept out config w)
    (hs : w.sessions[k]? = some s) (ho : s.isOver = false) (hf : s'.Fallen) :
    Sustained out config (w.setSession k s') :=
  .bereft (h.fall hs ho hf).1
    ⟨s', List.mem_of_getElem? (setSession_self hs), hf.crashed⟩

/-- With room for the events of its sessions a player is never out of memory. -/
theorem happens {a : Option (Call × Completion)} (h : Sustained out config w)
    (hroom : Broadcast.available config.eventCapacity.toNat = true) (hm : Happens out w a w') :
    Sustained out config w' ∧ ∀ c answer, a = some (c, answer) → answer ≠ .broken := by
  cases h with
  | bereft h hs =>
    obtain ⟨hbereft, hremains, _, hanswer⟩ := h.happens hm
    constructor
    · obtain ⟨s, hs, hp⟩ := hs
      obtain ⟨k, hk⟩ := List.getElem?_of_mem hs
      obtain ⟨s', hs', hphase, _⟩ := hremains.silent k s hk
      exact .bereft hbereft ⟨s', List.mem_of_getElem? hs', hphase.trans hp⟩
    · intro c answer ha
      rw [hanswer c answer ha]
      split
      · simp
      · cases c <;> simp [Call.afterLoss]
  | kept h =>
    cases hm with
    | pass hn => exact ⟨.kept (h.pass hn), by simp⟩
    | touch f => exact ⟨.kept (h.touch f), by simp⟩
    | begin c => exact ⟨.kept (h.begin c), by simp⟩
    | @act k s s' hs step =>
      refine ⟨?_, by simp⟩
      by_cases hp : s'.phase = .crashed
      · obtain ⟨ho, hfallen⟩ := h.fallen hs step hp
        exact .of_fall h hs ho hfallen
      · exact .kept (h.act hs step hp)
    | collapse hs ho hacts =>
      exact ⟨.of_fall h hs ho ((h.reachable _ _ hs).fallen_of_acts hacts), by simp⟩
    | @finish c tracing _ hr =>
      refine ⟨.kept (h.finish hr tracing c hroom), ?_⟩
      intro c' answer ha
      cases ha
      cases c with
      | stop =>
        obtain ⟨_, _, hfinish⟩ := h.finish_stop hr tracing
        simp [hfinish]
      | load url =>
        obtain ⟨_, _, hfinish⟩ := h.finish_load hr tracing url hroom
        simp [hfinish]

theorem goes (h : Sustained out config w)
    (hroom : Broadcast.available config.eventCapacity.toNat = true) (hm : Goes out w answers w') :
    Sustained out config w' ∧ ∀ answer ∈ answers.map Prod.snd, answer ≠ .broken := by
  induction hm with
  | rest => exact ⟨h, by simp⟩
  | @move w w₁ w' a answers hm _ ih =>
    obtain ⟨h₁, hanswer⟩ := h.happens hroom hm
    obtain ⟨h', hanswers⟩ := ih h₁
    refine ⟨h', ?_⟩
    intro answer hmem
    rw [List.map_append, List.mem_append] at hmem
    rcases hmem with hmem | hmem
    · obtain ⟨⟨c, _⟩, ha, rfl⟩ := List.mem_map.mp hmem
      exact hanswer c _ (Option.mem_toList.mp ha)
    · exact hanswers answer hmem

end Sustained

end Succession

/-! ## What a configuration is good for -/

/-- How sessions and players get on with a configuration. -/
structure Config.Runs (config : Config) (out : Surface σ) : Prop where
  /-- A session starts if and only if there is room for its events, -/
  starts : ∀ (url : String) (x : σ) (tracing : Bool), Start.ofConfig url config x tracing =
    if config.eventCapacity.toNat ≤ Broadcast.largest
      then .running (.spawn url config x tracing) else .broken
  /-- and gets on with its delays until it is over. -/
  timers : ∀ (url : String) (x : σ) (tracing : Bool) (now : Nat) (m : Moment σ),
    Run out ⟨now, .spawn url config x tracing⟩ m → m.SetsTimers out config
  created : ∀ x : σ, Player.create config x = .ok (⟨config, some x, none⟩ : Player σ Nat)
  /-- With room for its events a player is never out of memory, and starts what it is to load unless
  a session broke down before. -/
  loads : config.eventCapacity.toNat ≤ Broadcast.largest → ∀ x now answers w,
    Succession.Goes out ⟨now, ⟨config, some x, none⟩, [], none⟩ answers w →
      (∀ answer ∈ answers.map Prod.snd, answer ≠ .broken) ∧
        (w.ready = true → (∀ s ∈ w.sessions, s.phase ≠ .crashed) → ∀ url tracing,
          ∃ x', w.finish tracing (.load url) = (.done, { w with
            player := ⟨config, none, some w.sessions.length⟩
            sessions := w.sessions ++ [.spawn url config x' tracing]
            call := none }))
  /-- Without it no session is started, and the first load breaks down. -/
  fails : Broadcast.largest < config.eventCapacity.toNat → ∀ x now answers w,
    Succession.Goes out ⟨now, ⟨config, some x, none⟩, [], none⟩ answers w →
      w.sessions = [] ∧ answers.map Prod.snd = Completion.withoutRoom (answers.map Prod.fst)

namespace Config

variable {config : Config}

theorem create_eq (h : config.validate = .ok config) (x : σ) :
    Player.create config x = .ok (⟨config, some x, none⟩ : Player σ Nat) := by
  rw [Player.create, h]
  rfl

theorem valid_configurations_run (h : config.validate = .ok config) (out : Surface σ) :
    config.Runs out where
  starts := by
    intro url x tracing
    rw [Start.ofConfig, h]
    simp only [Start.launch, Broadcast.available_iff]
  timers := by
    intro url x tracing now m hrun
    exact hrun.setsTimers (reconnectDelay_pos (validate_eq_ok_iff.mp h).2.1)
  created := by
    intro x
    exact create_eq h x
  loads := by
    intro hroom x now answers w hgoes
    have hroom : Broadcast.available config.eventCapacity.toNat = true :=
      Broadcast.available_iff.mpr hroom
    have hkept : Succession.Kept out config ⟨now, ⟨config, some x, none⟩, [], none⟩ :=
      .create now (create_eq h x)
    obtain ⟨hsustained, hanswers⟩ := (Succession.Sustained.kept hkept).goes hroom hgoes
    refine ⟨hanswers, ?_⟩
    intro hready hsound url tracing
    cases hsustained with
    | kept hw =>
      obtain ⟨x', _, hfinish⟩ := hw.finish_load hready tracing url hroom
      exact ⟨x', hfinish⟩
    | bereft _ hcrashed =>
      obtain ⟨s, hs, hp⟩ := hcrashed
      exact absurd hp (hsound s hs)
  fails := by
    intro hroom x now answers w hgoes
    have hkept : Succession.Kept out config ⟨now, ⟨config, some x, none⟩, [], none⟩ :=
      .create now (create_eq h x)
    exact hkept.goes_without_room rfl (Broadcast.available_eq_false_iff.mpr hroom) hgoes

/-- The longest delays and the largest buffer. -/
theorem valid_configurations_run_of_extremes :
    let config : Config := ⟨0xFFFFFFFFFFFFFFFF, true, 0xFFFFFFFFFFFFFFFF, 0x100000000000000,
      0xFFFFFFFFFFFFFFFF⟩
    let stage := Rehearsal.Stage.create false
    config.validate = .ok config ∧ config.Runs Rehearsal.Stage.surface ∧
      Start.ofConfig "ws://north" config stage true =
        .running (.spawn "ws://north" config stage true) := by
  intro config stage
  have hruns : config.Runs Rehearsal.Stage.surface := valid_configurations_run rfl _
  have hstart := hruns.starts "ws://north" stage true
  rw [if_pos (by decide)] at hstart
  exact ⟨rfl, hruns, hstart⟩

end Config
end LivePlayback
