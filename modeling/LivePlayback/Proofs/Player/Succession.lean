import LivePlayback.Player
import LivePlayback.Proofs.Session.Growth
import LivePlayback.Proofs.Session.Sinks
import LivePlayback.Proofs.Session.Transports
import LivePlayback.Rehearsal.Stage
import LivePlayback.Session.Start

/-!
# The succession of sessions

A player and the sessions that it starts one after the other. A call stops the session that plays
and waits for its end; everything else may happen in between. The player and the session that plays
never hold the surface both, and a session that is not the last one has given up all it had.
-/

namespace LivePlayback
set_option autoImplicit false

open Supervisor

variable {σ : Type}

inductive Call where
  | load (url : String)
  | stop
  deriving DecidableEq

/-- What comes of a call. -/
inductive Completion where
  | done
  | failed (why : Fault)
  | broken

/-- A player with all the sessions it had, oldest first. -/
structure Succession (σ : Type) where
  now : Nat
  player : Player σ Nat
  sessions : List (Supervisor σ)
  /-- It waits for a session to end. -/
  call : Option Call

namespace Succession

def current? (w : Succession σ) : Option (Supervisor σ) :=
  w.player.session.bind fun k => w.sessions[k]?

/-- A session gives the surface back when it has ended. -/
def returned? (w : Succession σ) : Option σ :=
  w.current?.bind fun s => if s.phase = .ended then some s.surface else none

/-- There is nothing to wait for. -/
def ready (w : Succession σ) : Bool := w.current?.all Supervisor.isOver

def setSession (w : Succession σ) (k : Nat) (s : Supervisor σ) : Succession σ :=
  { w with sessions := w.sessions.set k s }

/-- A sink of a session reports. -/
def notify (w : Succession σ) (k : Nat) (n : Notice) : Succession σ :=
  { w with sessions := w.sessions.modify k (Supervisor.notify · n) }

def begin (w : Succession σ) (c : Call) : Succession σ :=
  { w with
    sessions := match w.player.session with
      | none => w.sessions
      | some k => w.sessions.modify k requestStop
    call := some c }

def answer (w : Succession σ) (player : Player σ Nat) (a : Completion) :
    Completion × Succession σ :=
  (a, { w with player, call := none })

/-- What is left of a call when there is nothing more to wait for. -/
def finish (w : Succession σ) (tracing : Bool) : Call → Completion × Succession σ
  | .stop =>
    match w.player.reclaim w.returned? with
    | (.error why, player) => w.answer player (.failed why)
    | (.ok (), player) => w.answer player .done
  | .load url =>
    match w.player.relend w.returned? with
    | (.error why, player) => w.answer player (.failed why)
    | (.ok x, player) =>
      match Start.launch url player.config x tracing with
      | .failed why => w.answer player (.failed why)
      | .broken => w.answer player .broken
      | .running s =>
        { w with sessions := w.sessions ++ [s] }.answer (player.play w.sessions.length) .done

/-- Time passes, something happens to the surface, a session goes on without breaking down, whether
it is the one that plays or one before, or somebody calls the player, one call at a time. -/
inductive Move (out : Surface σ) : Succession σ → Succession σ → Prop where
  | pass {w : Succession σ} {later : Nat} (h : w.now ≤ later) : Move out w { w with now := later }
  | touch (w : Succession σ) (f : σ → σ) :
      Move out w { w with player := { w.player with surface := w.player.surface.map f } }
  | act {w : Succession σ} {k : Nat} {s s' : Supervisor σ} (hk : w.sessions[k]? = some s)
      (h : Step out ⟨w.now, s⟩ ⟨w.now, s'⟩) (hs : s'.phase ≠ .crashed) :
      Move out w (w.setSession k s')
  | begin {w : Succession σ} (c : Call) (h : w.call = none) : Move out w (w.begin c)
  | finish {w : Succession σ} {c : Call} (tracing : Bool) (hc : w.call = some c)
      (hr : w.ready = true) : Move out w (w.finish tracing c).2

def Moves (out : Surface σ) : Succession σ → Succession σ → Prop :=
  Relation.ReflTransGen (Move out)

end Succession

/-! ## Sessions that are over -/

/-- A session that has ended has nothing left. -/
structure Supervisor.Retired (s : Supervisor σ) : Prop where
  ended : s.phase = .ended
  destroyed : s.state = .destroyed
  bare : s.Bare
  released : s.journal.Vacant
  dropped : s.journal.Detached

theorem Reachable.retired {out : Surface σ} {m : Moment σ} (h : Reachable out m)
    (hp : m.supervisor.phase = .ended) : m.supervisor.Retired := by
  have hover : m.supervisor.isOver = true := by simp [isOver, hp]
  have hbare : m.supervisor.Bare := by
    cases h.sound with
    | ended _ _ _ hb => exact hb
    | _ => simp_all
  exact ⟨hp, h.sound.destroyed_iff.mpr hp, hbare, h.accounted.vacant (h.sound.queue_of_over hover),
    h.detached_of_over hover⟩

/-- A stopped session that is not over has something left to handle, or its transport closes. -/
theorem Supervisor.turn_of_stopped {s : Supervisor σ} (now : Nat) (hr : s.stopRequested = true)
    (ho : s.isOver = false) : (∃ i, s.turn now = .take i ∧ i ≠ .broken) ∨
      s.turn now = .ask .close ∧ ∃ deadline, s.phase = .closing deadline := by
  unfold turn
  cases hp : s.phase with
  | spawned => exact .inl ⟨.begin, rfl, nofun⟩
  | connecting | waiting => exact .inl ⟨.stop, by simp [hr], nofun⟩
  | closing deadline => exact .inr ⟨rfl, deadline, rfl⟩
  | ended | crashed => simp [isOver, hp] at ho

theorem Supervisor.exists_lastInput {s : Supervisor σ} (now : Nat) (hr : s.stopRequested = true)
    (ho : s.isOver = false) : ∃ i, Admits s now i ∧ i ≠ .broken := by
  rcases turn_of_stopped now hr ho with ⟨i, hi, hne⟩ | ⟨hq, _⟩
  · exact ⟨i, admits_of_turn_take hi, hne⟩
  · exact ⟨.closed, admits_of_turn_ask hq (.inl rfl), nofun⟩

/-! ## Runs of a player -/

namespace Succession

variable {out : Surface σ} {config : Config} {w w' : Succession σ} {k : Nat} {s s' : Supervisor σ}

/-- Where the surface is while no session plays. -/
def surface? (w : Succession σ) : Option σ := w.player.surface.or w.returned?

/-- What holds of a player and its sessions at any time. -/
structure Kept (out : Surface σ) (config : Config) (w : Succession σ) : Prop where
  config : w.player.config = config
  one : w.player.surface.isSome = true ↔ w.player.session = none
  last : ∀ k, w.player.session = some k → k + 1 = w.sessions.length
  reachable : ∀ (k : Nat) s, w.sessions[k]? = some s → Reachable out ⟨w.now, s⟩
  sturdy : ∀ (k : Nat) s, w.sessions[k]? = some s → s.phase ≠ .crashed
  earlier : ∀ (k : Nat) s, w.sessions[k]? = some s → w.player.session ≠ some k → s.phase = .ended
  stopping : ∀ c s, w.call = some c → w.current? = some s → s.stopRequested = true

theorem current?_of_none (h : w.player.session = none) : w.current? = none := by
  simp [current?, h]

theorem current?_of_some (h : w.player.session = some k) : w.current? = w.sessions[k]? := by
  simp [current?, h]

/-- Either another session is looked at, or the one that was replaced. -/
theorem getElem?_setSession (hs : w.sessions[k]? = some s) {j : Nat} {t : Supervisor σ}
    (ht : (w.setSession k s').sessions[j]? = some t) :
    j = k ∧ t = s' ∨ j ≠ k ∧ w.sessions[j]? = some t := by
  have hlt : k < w.sessions.length := (List.getElem?_eq_some_iff.mp hs).1
  rw [setSession, List.getElem?_set] at ht
  by_cases hj : k = j
  · rw [if_pos hj, if_pos (hj ▸ hlt)] at ht
    exact .inl ⟨hj.symm, (Option.some.inj ht).symm⟩
  · rw [if_neg hj] at ht
    exact .inr ⟨fun heq => hj heq.symm, ht⟩

theorem setSession_self (hs : w.sessions[k]? = some s) :
    (w.setSession k s').sessions[k]? = some s' := by
  have hlt : k < w.sessions.length := (List.getElem?_eq_some_iff.mp hs).1
  simp [setSession, hlt]

theorem setSession_of_ne {j : Nat} (hj : j ≠ k) :
    (w.setSession k s').sessions[j]? = w.sessions[j]? := by
  simp [setSession, hj.symm]

namespace Kept

theorem exists_current (h : Kept out config w) (hk : w.player.session = some k) :
    ∃ s, w.sessions[k]? = some s ∧ w.current? = some s := by
  have hlt : k < w.sessions.length := by
    have := h.last k hk
    omega
  have hs : w.sessions[k]? = some w.sessions[k] := List.getElem?_eq_getElem hlt
  exact ⟨_, hs, (current?_of_some hk).trans hs⟩

theorem surface_eq_none (h : Kept out config w) (hk : w.player.session = some k) :
    w.player.surface = none := by
  rw [← Option.not_isSome_iff_eq_none, h.one, hk]
  nofun

/-- What is waited for has come when the session has ended. -/
theorem ended (h : Kept out config w) (hr : w.ready = true) (hk : w.player.session = some k)
    (hs : w.sessions[k]? = some s) : s.phase = .ended := by
  have hover : s.isOver = true := by simpa [ready, current?_of_some hk, hs] using hr
  have hp : s.phase = .ended ∨ s.phase = .crashed := by simpa [isOver] using hover
  exact hp.resolve_right (h.sturdy k s hs)

theorem all_ended (h : Kept out config w) (hr : w.ready = true) (hs : w.sessions[k]? = some s) :
    s.phase = .ended := by
  by_cases hk : w.player.session = some k
  · exact h.ended hr hk hs
  · exact h.earlier k s hs hk

theorem reclaim (h : Kept out config w) (hr : w.ready = true) :
    ∃ x, w.surface? = some x ∧
      w.player.reclaim w.returned? = (.ok (), ⟨config, some x, none⟩) := by
  cases hk : w.player.session with
  | none =>
    obtain ⟨x, hx⟩ := Option.isSome_iff_exists.mp (h.one.mpr hk)
    have hplayer : w.player = ⟨config, some x, none⟩ := by
      rw [← h.config, ← hx, ← hk]
    exact ⟨x, by simp [surface?, hx], by rw [hplayer]; rfl⟩
  | some k =>
    obtain ⟨s, hs, hcurrent⟩ := h.exists_current hk
    have hended : s.phase = .ended := h.ended hr hk hs
    have hreturned : w.returned? = some s.surface := by simp [returned?, hcurrent, hended]
    have hnone : w.player.surface = none := h.surface_eq_none hk
    refine ⟨s.surface, by simp [surface?, hnone, hreturned], ?_⟩
    simp [Player.reclaim, hk, hreturned, h.config]

theorem finish_stop (h : Kept out config w) (hr : w.ready = true) (tracing : Bool) :
    ∃ x, w.surface? = some x ∧ w.finish tracing .stop =
      (.done, { w with player := ⟨config, some x, none⟩, call := none }) := by
  obtain ⟨x, hx, hreclaim⟩ := h.reclaim hr
  refine ⟨x, hx, ?_⟩
  simp only [finish, hreclaim]
  rfl

theorem finish_load (h : Kept out config w) (hr : w.ready = true) (tracing : Bool) (url : String)
    (hroom : Broadcast.available config.eventCapacity.toNat = true) :
    ∃ x, w.surface? = some x ∧ w.finish tracing (.load url) =
      (.done, { w with
        player := ⟨config, none, some w.sessions.length⟩
        sessions := w.sessions ++ [.spawn url config x tracing]
        call := none }) := by
  obtain ⟨x, hx, hreclaim⟩ := h.reclaim hr
  have hrelend : w.player.relend w.returned? = (.ok x, ⟨config, none, none⟩) := by
    simp [Player.relend, hreclaim, Player.lend]
  refine ⟨x, hx, ?_⟩
  simp only [finish, hrelend, Start.launch, hroom, if_true]
  rfl

theorem pass {later : Nat} (h : Kept out config w) (hn : w.now ≤ later) :
    Kept out config { w with now := later } :=
  ⟨h.config, h.one, h.last, fun k s hs => (h.reachable k s hs).step (.pass hn), h.sturdy,
    h.earlier, h.stopping⟩

theorem touch (h : Kept out config w) (f : σ → σ) :
    Kept out config { w with player := { w.player with surface := w.player.surface.map f } } :=
  ⟨h.config, by simpa using h.one, h.last, h.reachable, h.sturdy, h.earlier, h.stopping⟩

/-- A session goes on and forgets neither that it has ended nor that it was stopped. -/
theorem setSession (h : Kept out config w) (hs : w.sessions[k]? = some s)
    (hm : Reachable out ⟨w.now, s'⟩) (hp : s'.phase ≠ .crashed)
    (he : s.phase = .ended → s'.phase = .ended)
    (hr : s.stopRequested = true → s'.stopRequested = true) :
    Kept out config (w.setSession k s') := by
  refine ⟨h.config, h.one, ?_, ?_, ?_, ?_, ?_⟩
  · intro j hj
    rw [Succession.setSession, List.length_set]
    exact h.last j hj
  · intro j t ht
    rcases getElem?_setSession hs ht with ⟨_, rfl⟩ | ⟨_, ht⟩
    · exact hm
    · exact h.reachable j t ht
  · intro j t ht
    rcases getElem?_setSession hs ht with ⟨_, rfl⟩ | ⟨_, ht⟩
    · exact hp
    · exact h.sturdy j t ht
  · intro j t ht hj
    rcases getElem?_setSession hs ht with ⟨rfl, rfl⟩ | ⟨_, ht⟩
    · exact he (h.earlier j s hs hj)
    · exact h.earlier j t ht hj
  · intro c t hc ht
    obtain ⟨j, hj, ht⟩ := Option.bind_eq_some_iff.mp ht
    have hcurrent : w.current? = w.sessions[j]? := current?_of_some hj
    rcases getElem?_setSession hs ht with ⟨rfl, rfl⟩ | ⟨_, ht⟩
    · exact hr (h.stopping c s hc (hcurrent.trans hs))
    · exact h.stopping c t hc (hcurrent.trans ht)

theorem begin_of_some (c : Call) (hk : w.player.session = some k)
    (hs : w.sessions[k]? = some s) :
    w.begin c = { w.setSession k s.requestStop with call := some c } := by
  simp only [Succession.begin, hk, Succession.setSession, List.modify_eq_set_getElem?, hs]
  rfl

theorem begin (h : Kept out config w) (c : Call) : Kept out config (w.begin c) := by
  cases hk : w.player.session with
  | none =>
    have hsame : w.begin c = { w with call := some c } := by simp only [Succession.begin, hk]
    rw [hsame]
    refine ⟨h.config, h.one, h.last, h.reachable, h.sturdy, h.earlier, fun c' s _ hs => ?_⟩
    have hcurrent : w.current? = some s := hs
    rw [current?_of_none hk] at hcurrent
    cases hcurrent
  | some k =>
    obtain ⟨s, hs, _⟩ := h.exists_current hk
    have hkept : Kept out config (w.setSession k s.requestStop) :=
      h.setSession hs ((h.reachable k s hs).step (.stop ⟨w.now, s⟩)) (h.sturdy k s hs) id
        fun _ => rfl
    rw [begin_of_some c hk hs]
    refine ⟨hkept.config, hkept.one, hkept.last, hkept.reachable, hkept.sturdy, hkept.earlier,
      fun c' t _ ht => ?_⟩
    have hlt : k < w.sessions.length := (List.getElem?_eq_some_iff.mp hs).1
    obtain ⟨j, hj, ht⟩ := Option.bind_eq_some_iff.mp ht
    obtain rfl : k = j := Option.some.inj (hk.symm.trans hj)
    have hset : (w.sessions.set k s.requestStop)[k]? = some t := ht
    rw [List.getElem?_set, if_pos rfl, if_pos hlt] at hset
    cases hset
    rfl

theorem finish (h : Kept out config w) (hr : w.ready = true) (tracing : Bool) (c : Call)
    (hroom : Broadcast.available config.eventCapacity.toNat = true) :
    Kept out config (w.finish tracing c).2 := by
  cases c with
  | stop =>
    obtain ⟨x, _, hfinish⟩ := h.finish_stop hr tracing
    have hnext := congrArg Prod.snd hfinish
    simp only at hnext
    rw [hnext]
    exact ⟨rfl, by simp, fun _ hk => (by cases hk), h.reachable, h.sturdy,
      fun k s hs _ => h.all_ended hr hs, fun _ _ hc => (by cases hc)⟩
  | load url =>
    obtain ⟨x, _, hfinish⟩ := h.finish_load hr tracing url hroom
    have hnext := congrArg Prod.snd hfinish
    simp only at hnext
    rw [hnext]
    have hcases {j : Nat} {t : Supervisor σ}
        (ht : (w.sessions ++ [.spawn url config x tracing])[j]? = some t) :
        w.sessions[j]? = some t ∨ j = w.sessions.length ∧ t = .spawn url config x tracing := by
      rw [List.getElem?_append] at ht
      split at ht
      · exact .inl ht
      · rename_i hle
        rw [List.getElem?_singleton] at ht
        split at ht
        · exact .inr ⟨by omega, (Option.some.inj ht).symm⟩
        · cases ht
    refine ⟨rfl, by simp, ?_, ?_, ?_, ?_, fun _ _ hc => (by cases hc)⟩
    · rintro k ⟨⟩
      simp
    · intro j t ht
      rcases hcases ht with ht | ⟨_, rfl⟩
      · exact h.reachable j t ht
      · exact .spawn w.now url config x tracing
    · intro j t ht
      rcases hcases ht with ht | ⟨_, rfl⟩
      · exact h.sturdy j t ht
      · nofun
    · intro j t ht hj
      rcases hcases ht with ht | ⟨rfl, _⟩
      · exact h.all_ended hr ht
      · exact absurd rfl hj

theorem act (h : Kept out config w) (hs : w.sessions[k]? = some s)
    (step : Step out ⟨w.now, s⟩ ⟨w.now, s'⟩) (hp : s'.phase ≠ .crashed) :
    Kept out config (w.setSession k s') := by
  have hm : Reachable out ⟨w.now, s⟩ := h.reachable k s hs
  have hended (he : s.phase = .ended) : s'.phase = .ended := by
    have hover : s.isOver = true := by simp [isOver, he]
    exact (step.of_over hover).1.trans he
  exact h.setSession hs (hm.step step) hp hended fun hr => (step.winds hm hr).1.stopped hr

theorem move (hroom : Broadcast.available config.eventCapacity.toNat = true)
    (h : Kept out config w) (hm : Move out w w') : Kept out config w' := by
  cases hm with
  | pass hn => exact h.pass hn
  | touch f => exact h.touch f
  | act hs step hp => exact h.act hs step hp
  | begin c => exact h.begin c
  | finish tracing _ hr => exact h.finish hr tracing _ hroom

theorem moves (hroom : Broadcast.available config.eventCapacity.toNat = true)
    (h : Kept out config w) (hm : Moves out w w') : Kept out config w' := by
  induction hm with
  | refl => exact h
  | tail _ hm ih => exact ih.move hroom hm

theorem create {player : Player σ Nat} {x : σ} (now : Nat)
    (hp : Player.create config x = .ok player) : Kept out config ⟨now, player, [], none⟩ := by
  have hplayer : player = ⟨config, some x, none⟩ := by
    unfold Player.create Config.validate at hp
    split at hp
    · cases hp
    · split at hp
      · cases hp
      · cases hp
        rfl
  subst hplayer
  exact ⟨rfl, by simp, fun _ hk => (by cases hk), fun _ _ hs => (by cases hs),
    fun _ _ hs => (by cases hs), fun _ _ hs => (by cases hs), fun _ _ hc => (by cases hc)⟩

/-- Waiting comes to an end after the inputs that a stopped session has left. -/
theorem exists_ready {c : Call} (h : Kept out config w) (hc : w.call = some c) :
    ∃ w', Moves out w w' ∧ Kept out config w' ∧ w'.call = some c ∧ w'.ready = true := by
  generalize hn : (w.current?.map remaining).getD 0 = n
  induction n using Nat.strong_induction_on generalizing w with
  | _ n ih =>
    cases hr : w.ready with
    | true => exact ⟨w, .refl, h, hc, hr⟩
    | false =>
      obtain ⟨k, s, hk, hs, ho⟩ : ∃ k s, w.player.session = some k ∧ w.sessions[k]? = some s ∧
          s.isOver = false := by
        cases hk : w.player.session with
        | none => simp [ready, current?_of_none hk] at hr
        | some k =>
          obtain ⟨s, hs, hcurrent⟩ := h.exists_current hk
          exact ⟨k, s, rfl, hs, by simpa [ready, hcurrent] using hr⟩
      have hcurrent : w.current? = some s := (current?_of_some hk).trans hs
      have hstopped : s.stopRequested = true := h.stopping c s hc hcurrent
      obtain ⟨i, hi, hne⟩ := exists_lastInput w.now hstopped ho
      obtain ⟨hless, hcrash⟩ := handle_lastInput out w.now (hi.lastInput hstopped) hstopped
      have step : Step out ⟨w.now, s⟩ ⟨w.now, s.handle out w.now i⟩ :=
        .handle (m := ⟨w.now, s⟩) false hi
      have hp : (s.handle out w.now i).phase ≠ .crashed := fun hp => hne (hcrash hp)
      have hkept : Kept out config (w.setSession k (s.handle out w.now i)) := h.act hs step hp
      have hlt : k < w.sessions.length := (List.getElem?_eq_some_iff.mp hs).1
      have hnext : (w.setSession k (s.handle out w.now i)).current? =
          some (s.handle out w.now i) := by
        have hk' : (w.setSession k (s.handle out w.now i)).player.session = some k := hk
        rw [current?_of_some hk']
        simp [Succession.setSession, hlt]
      obtain ⟨w', hmoves, hw'⟩ := ih (s.handle out w.now i).remaining
        (by rw [← hn, hcurrent]; exact hless) hkept hc (by rw [hnext]; rfl)
      exact ⟨w', .head (.act hs step hp) hmoves, hw'⟩

end Kept

/-- A session that has ended is never played again, and all that it still notes is what its sinks
report. -/
theorem Move.silent (hroom : Broadcast.available config.eventCapacity.toNat = true)
    (h : Kept out config w) (hm : Move out w w') (hs : w.sessions[k]? = some s)
    (hp : s.phase = .ended) (hk : w.player.session ≠ some k) :
    ∃ s', w'.sessions[k]? = some s' ∧ s'.phase = .ended ∧ w'.player.session ≠ some k ∧
      s.journal.Echoes s'.journal := by
  have hlt : k < w.sessions.length := (List.getElem?_eq_some_iff.mp hs).1
  cases hm with
  | pass | touch => exact ⟨s, hs, hp, hk, .refl _⟩
  | @act j t t' ht step =>
    by_cases hj : j = k
    · subst hj
      obtain rfl : t = s := Option.some.inj (ht.symm.trans hs)
      obtain ⟨hp', hechoes⟩ := step.of_over (by simp [isOver, hp])
      exact ⟨t', by simp [setSession, hlt], hp'.trans hp, hk, hechoes⟩
    · exact ⟨s, by simpa [setSession, List.getElem?_set, hj] using hs, hp, hk, .refl _⟩
  | begin c =>
    cases hj : w.player.session with
    | none => exact ⟨s, by simpa only [Succession.begin, hj] using hs, hp, hk, .refl _⟩
    | some j =>
      have hne : j ≠ k := fun heq => hk (heq ▸ hj)
      refine ⟨s, ?_, hp, hk, .refl _⟩
      simp only [Succession.begin, hj, List.getElem?_modify, if_neg hne]
      simpa using hs
  | @finish c tracing _ hr =>
    cases c with
    | stop =>
      obtain ⟨x, _, hfinish⟩ := h.finish_stop hr tracing
      rw [congrArg Prod.snd hfinish]
      exact ⟨s, hs, hp, by simp, .refl _⟩
    | load url =>
      obtain ⟨x, _, hfinish⟩ := h.finish_load hr tracing url hroom
      rw [congrArg Prod.snd hfinish]
      refine ⟨s, ?_, hp, ?_, .refl _⟩
      · rw [List.getElem?_append_left hlt]
        exact hs
      · simp only [ne_eq, Option.some.injEq]
        omega

theorem Moves.silent (hroom : Broadcast.available config.eventCapacity.toNat = true)
    (h : Kept out config w) (hm : Moves out w w') (hs : w.sessions[k]? = some s)
    (hp : s.phase = .ended) (hk : w.player.session ≠ some k) :
    ∃ s', w'.sessions[k]? = some s' ∧ s'.phase = .ended ∧ w'.player.session ≠ some k ∧
      s.journal.Echoes s'.journal := by
  induction hm with
  | refl => exact ⟨s, hs, hp, hk, .refl _⟩
  | tail hm step ih =>
    obtain ⟨s₁, hs₁, hp₁, hk₁, hechoes⟩ := ih
    obtain ⟨s', hs', hp', hk', hechoes'⟩ := step.silent hroom (h.moves hroom hm) hs₁ hp₁ hk₁
    exact ⟨s', hs', hp', hk', hechoes.trans hechoes'⟩

/-! ## Isolation -/

/-- The same but for one session. -/
structure Alike (k : Nat) (w w' : Succession σ) : Prop where
  now : w'.now = w.now
  player : w'.player = w.player
  call : w'.call = w.call
  length : w'.sessions.length = w.sessions.length
  others : ∀ j, j ≠ k → w'.sessions[j]? = w.sessions[j]?

theorem alike_notify (w : Succession σ) (k : Nat) (n : Notice) : Alike k w (w.notify k n) :=
  ⟨rfl, rfl, rfl, by simp [notify], fun j hj => by
    simp [notify, hj.symm]⟩

namespace Alike

variable {w₁ w₁' : Succession σ}

theorem current?_eq (h : Alike k w w₁) (hk : w.player.session ≠ some k) :
    w₁.current? = w.current? := by
  cases hj : w.player.session with
  | none => rw [current?_of_none hj, current?_of_none (h.player ▸ hj)]
  | some j =>
    have hne : j ≠ k := fun heq => hk (heq ▸ hj)
    rw [current?_of_some hj, current?_of_some (h.player ▸ hj), h.others j hne]

theorem ready_eq (h : Alike k w w₁) (hk : w.player.session ≠ some k) : w₁.ready = w.ready := by
  unfold ready
  rw [h.current?_eq hk]

theorem surface?_eq (h : Alike k w w₁) (hk : w.player.session ≠ some k) :
    w₁.surface? = w.surface? := by
  unfold surface? returned?
  rw [h.current?_eq hk, h.player]

theorem setSession (h : Alike k w w₁) (j : Nat) (s : Supervisor σ) :
    Alike k (w.setSession j s) (w₁.setSession j s) := by
  refine ⟨h.now, h.player, h.call, by simp [Succession.setSession, h.length], fun i hi => ?_⟩
  simp only [Succession.setSession, List.getElem?_set, h.length, h.others i hi]

/-- Whatever one does, the other one can do, and what the session does by which they differ is
not to be seen outside of it. -/
theorem move (hroom : Broadcast.available config.eventCapacity.toNat = true)
    (h : Alike k w w₁) (hkept : Kept out config w) (hkept₁ : Kept out config w₁)
    (hk : w.player.session ≠ some k) (hm : Move out w₁ w₁') :
    ∃ w', Moves out w w' ∧ Alike k w' w₁' := by
  cases hm with
  | pass hn =>
    exact ⟨_, .single (.pass (h.now ▸ hn)), rfl, h.player, h.call, h.length, h.others⟩
  | touch f =>
    refine ⟨_, .single (.touch w f), h.now, ?_, h.call, h.length, h.others⟩
    simp only [h.player]
  | @act j s s' hs step hp =>
    by_cases hj : j = k
    · subst hj
      refine ⟨w, .refl, h.now, h.player, h.call, ?_, fun i hi => ?_⟩
      · simp [Succession.setSession, h.length]
      · rw [← h.others i hi]
        simp [Succession.setSession, hi.symm]
    · rw [h.others j hj] at hs
      rw [h.now] at step
      exact ⟨_, .single (.act hs step hp), h.setSession j s'⟩
  | begin c hc =>
    refine ⟨_, .single (.begin c (h.call ▸ hc)), h.now, h.player, rfl, ?_, fun i hi => ?_⟩
    · simp only [Succession.begin, h.player]
      split <;> simp [h.length]
    · simp only [Succession.begin, h.player]
      split <;> simp [List.getElem?_modify, h.others i hi]
  | @finish c tracing hc hr =>
    have hr' : w.ready = true := h.ready_eq hk ▸ hr
    refine ⟨_, .single (.finish tracing (h.call ▸ hc) hr'), ?_⟩
    cases c with
    | stop =>
      obtain ⟨x, hx, hfinish⟩ := hkept.finish_stop hr' tracing
      obtain ⟨x₁, hx₁, hfinish₁⟩ := hkept₁.finish_stop hr tracing
      obtain rfl : x₁ = x := by
        rw [h.surface?_eq hk, hx] at hx₁
        exact (Option.some.inj hx₁).symm
      rw [congrArg Prod.snd hfinish, congrArg Prod.snd hfinish₁]
      exact ⟨h.now, rfl, rfl, h.length, h.others⟩
    | load url =>
      obtain ⟨x, hx, hfinish⟩ := hkept.finish_load hr' tracing url hroom
      obtain ⟨x₁, hx₁, hfinish₁⟩ := hkept₁.finish_load hr tracing url hroom
      obtain rfl : x₁ = x := by
        rw [h.surface?_eq hk, hx] at hx₁
        exact (Option.some.inj hx₁).symm
      rw [congrArg Prod.snd hfinish, congrArg Prod.snd hfinish₁]
      refine ⟨h.now, by simp only [h.length], rfl, by simp [h.length], fun i hi => ?_⟩
      simp only [List.getElem?_append, h.length, h.others i hi]

theorem moves (hroom : Broadcast.available config.eventCapacity.toNat = true)
    (h : Alike k w w₁) (hkept : Kept out config w) (hkept₁ : Kept out config w₁)
    (hlt : k < w.sessions.length) (hk : w.player.session ≠ some k) (hm : Moves out w₁ w₁') :
    ∃ w', Moves out w w' ∧ Alike k w' w₁' := by
  induction hm with
  | refl => exact ⟨w, .refl, h⟩
  | tail hm step ih =>
    obtain ⟨w', hmoves, halike⟩ := ih
    have hs : w.sessions[k]? = some w.sessions[k] := List.getElem?_eq_getElem hlt
    obtain ⟨_, _, _, hk', _⟩ := hmoves.silent hroom hkept hs (hkept.earlier k _ hs hk) hk
    obtain ⟨w'', hmoves', halike'⟩ :=
      halike.move hroom (hkept.moves hroom hmoves) (hkept₁.moves hroom hm) hk' step
    exact ⟨w'', hmoves.trans hmoves', halike'⟩

end Alike

theorem Move.notify (hs : w.sessions[k]? = some s) (hp : s.phase ≠ .crashed) (n : Notice) :
    Move out w (w.notify k n) := by
  have hset : w.notify k n = w.setSession k (s.notify n) := by
    simp only [Succession.notify, setSession, List.modify_eq_set_getElem?, hs]
    rfl
  rw [hset]
  exact .act hs (.notify ⟨w.now, s⟩ n) ((Idles.notify s n).phase ▸ hp)

/-- A player hands its surface on from session to session. -/
structure HandsOn (out : Surface σ) (config : Config) (w : Succession σ) : Prop where
  /-- Either the player has the surface or the session that plays, which is the last one. -/
  one : Xor (w.player.surface.isSome = true) (w.player.session.isSome = true)
  last : ∀ k, w.player.session = some k → k + 1 = w.sessions.length
  /-- Every other session has given up all it had, and stays silent from then on. -/
  retired : ∀ (k : Nat) s, w.sessions[k]? = some s → w.player.session ≠ some k → s.Retired
  silent : ∀ (k : Nat) s w', w.sessions[k]? = some s → w.player.session ≠ some k →
    Moves out w w' → ∃ s', w'.sessions[k]? = some s' ∧ w'.player.session ≠ some k ∧
      s.journal.Echoes s'.journal
  /-- What its sinks report makes no difference to anybody else, now or later. -/
  isolated : ∀ k n, k < w.sessions.length → w.player.session ≠ some k →
    Alike k w (w.notify k n) ∧
      ∀ w', Moves out (w.notify k n) w' → ∃ w'', Moves out w w'' ∧ Alike k w'' w'
  /-- The wait of a call comes to its end. -/
  completes : ∀ c, w.call = some c →
    ∃ w', Moves out w w' ∧ w'.call = some c ∧ w'.ready = true
  nears : ∀ c s, w.call = some c → w.current? = some s → s.isOver = false →
    ((∃ i, s.turn w.now = .take i ∧ i ≠ .broken) ∨
      s.turn w.now = .ask .close ∧ ∃ deadline, s.phase = .closing deadline) ∧
    ∀ i stop, Admits s w.now i → ((s.stopIf stop).handle out w.now i).remaining < s.remaining
  /-- Then all sessions there were have given up all they had, and the next one gets the surface. -/
  loads : ∀ url tracing, w.call = some (.load url) → w.ready = true →
    (∀ s ∈ w.sessions, s.Retired) ∧ ∃ x, w.surface? = some x ∧ w.finish tracing (.load url) =
      (.done, { w with
        player := ⟨config, none, some w.sessions.length⟩
        sessions := w.sessions ++ [.spawn url config x tracing]
        call := none })
  stops : ∀ tracing, w.call = some .stop → w.ready = true →
    ∃ x, w.surface? = some x ∧ w.finish tracing .stop =
      (.done, { w with player := ⟨config, some x, none⟩, call := none })
  idles : ∀ tracing, w.call = none → w.player.session = none →
    (w.begin .stop).ready = true ∧ (w.begin .stop).finish tracing .stop = (.done, w)

/-- Whatever happens meanwhile, sources are switched without two sessions having the surface. -/
theorem surface_changes_hands {out : Surface σ} {config : Config} {x : σ} {player : Player σ Nat}
    {now : Nat} {w : Succession σ} (hp : Player.create config x = .ok player)
    (hroom : Broadcast.available config.eventCapacity.toNat = true)
    (h : Moves out ⟨now, player, [], none⟩ w) : w.HandsOn out config := by
  have hkept : Kept out config w := (Kept.create now hp).moves hroom h
  have hretired {k : Nat} {s : Supervisor σ} (hs : w.sessions[k]? = some s)
      (he : s.phase = .ended) : s.Retired := (hkept.reachable k s hs).retired he
  refine ⟨?_, hkept.last, ?_, ?_, ?_, ?_, ?_, ?_, ?_, ?_⟩
  · rw [xor_iff_iff_not, hkept.one]
    simp
  · intro k s hs hk
    exact hretired hs (hkept.earlier k s hs hk)
  · intro k s w' hs hk hm
    obtain ⟨s', hs', _, hk', hechoes⟩ := hm.silent hroom hkept hs (hkept.earlier k s hs hk) hk
    exact ⟨s', hs', hk', hechoes⟩
  · intro k n hlt hk
    have halike : Alike k w (w.notify k n) := alike_notify w k n
    have hs : w.sessions[k]? = some w.sessions[k] := List.getElem?_eq_getElem hlt
    have hkept' : Kept out config (w.notify k n) :=
      hkept.move hroom (.notify hs (hkept.sturdy k _ hs) n)
    exact ⟨halike, fun w' hm => halike.moves hroom hkept hkept' hlt hk hm⟩
  · intro c hc
    obtain ⟨w', hm, _, hc', hr⟩ := hkept.exists_ready hc
    exact ⟨w', hm, hc', hr⟩
  · intro c s hc hs ho
    have hstopped : s.stopRequested = true := hkept.stopping c s hc hs
    refine ⟨turn_of_stopped w.now hstopped ho, fun i stop hi => ?_⟩
    rw [stopIf_of_stopped hstopped]
    exact (handle_lastInput out w.now (hi.lastInput hstopped) hstopped).1
  · intro url tracing _ hr
    refine ⟨fun s hs => ?_, hkept.finish_load hr tracing url hroom⟩
    obtain ⟨k, hs⟩ := List.mem_iff_getElem?.mp hs
    exact hretired hs (hkept.all_ended hr hs)
  · intro tracing _ hr
    exact hkept.finish_stop hr tracing
  · intro tracing hc hk
    have hbegin : w.begin .stop = { w with call := some .stop } := by simp only [begin, hk]
    have hready : (w.begin .stop).ready = true := by
      rw [hbegin]
      simp [ready, current?, hk]
    refine ⟨hready, ?_⟩
    rw [hbegin]
    simp only [finish, Player.reclaim, hk]
    rw [answer, ← hc]

/-- The first session has a sink when the second one is asked for, and hears of it too late. -/
theorem surface_changes_hands_of_switch :
    let out := Rehearsal.Stage.surface
    let act (w : Succession Rehearsal.Stage) (i : Input) : Succession Rehearsal.Stage :=
      { w with sessions := w.sessions.modify 0 fun s => s.handle out w.now i }
    let first : Call := .load "ws://north"
    let second : Call := .load "ws://south"
    let idle : Succession Rehearsal.Stage := ⟨0, ⟨{}, some (.create false), none⟩, [], none⟩
    let loaded := ((idle.begin first).finish true first).2
    let announcement := FrameTag.codec.build "avc1".toUTF8
    let played := act (act (act loaded .begin) .connected) (.received (.frame announcement))
    let halted := act (act (played.begin second) .stop) .closed
    let switched := ((halted.finish true second).2).notify 0 ⟨1, none⟩
    switched.player.session = some 1 ∧ switched.sessions.map Supervisor.phase = [.ended, .spawned] ∧
      (switched.sessions.map fun s => s.journal.select Entry.created?) = [[1], []] ∧
      switched.HandsOn out {} := by
  intro out act first second idle loaded announcement played halted switched
  have hact {w : Succession Rehearsal.Stage} {i : Input} (hlt : 0 < w.sessions.length)
      (hi : Admits w.sessions[0] w.now i)
      (hp : (w.sessions[0].handle out w.now i).phase ≠ .crashed) :
      Move out w (act w i) := by
    have hs : w.sessions[0]? = some w.sessions[0] := List.getElem?_eq_getElem hlt
    have hset : act w i = w.setSession 0 (w.sessions[0].handle out w.now i) := by
      simp only [act, Succession.setSession, List.modify_eq_set_getElem?, hs]
      rfl
    rw [hset]
    exact .act hs (.handle (m := ⟨w.now, w.sessions[0]⟩) false hi) hp
  have hloaded : Moves out idle loaded :=
    .head (.begin first rfl) (.single (.finish true rfl rfl))
  have hplayed : Moves out loaded played := by
    refine .head (hact ?_ (.begin ?_) ?_) (.head (hact ?_ (.connected ?_ ?_) ?_)
      (.single (hact ?_ (.received _ ?_ ?_ ?_) ?_))) <;> decide +kernel
  have hover : Moves out (played.begin second) halted := by
    have hclosing : ((act (played.begin second) .stop).sessions.get ⟨0, by decide +kernel⟩).phase =
        .closing 1000000000 := by decide +kernel
    refine .head (hact ?_ (.stop (.inr ?_) ?_) ?_) (.single (hact ?_ (.closed hclosing) ?_)) <;>
      decide +kernel
  have hswitched : Moves out halted switched := by
    have hfinish : Move out halted (halted.finish true second).2 :=
      .finish true (by decide +kernel) (by decide +kernel)
    have hlt : 0 < (halted.finish true second).2.sessions.length := by decide +kernel
    have hs : (halted.finish true second).2.sessions[0]? = some _ := List.getElem?_eq_getElem hlt
    have hp : ((halted.finish true second).2.sessions.get ⟨0, by decide +kernel⟩).phase ≠
        .crashed := by
      decide +kernel
    exact .head hfinish (.single (.notify hs hp ⟨1, none⟩))
  have hbegun : Move out played (played.begin second) := .begin second (by decide +kernel)
  have hmoves : Moves out idle switched :=
    hloaded.trans (hplayed.trans (.head hbegun (hover.trans hswitched)))
  exact ⟨by decide +kernel, by decide +kernel, by decide +kernel,
    surface_changes_hands rfl (by decide +kernel) hmoves⟩

end Succession

end LivePlayback
