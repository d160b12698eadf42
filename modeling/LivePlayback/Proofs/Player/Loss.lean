import LivePlayback.Proofs.Player.Succession

/-!
# Losing the surface

A session that breaks down takes the surface with it, at whatever point of its work that happens.
Whoever calls the player next is told so, once; from then on there is nothing to play on, and
nothing is started any more.
-/

namespace LivePlayback
set_option autoImplicit false

open Supervisor

variable {σ : Type}

/-- What a call gives once it is known that the surface is gone. -/
def Call.afterLoss : Call → Completion
  | .load _ => .failed Player.lostFault
  | .stop => .done

/-- What calls give after a session broke down; the first one is told of it, unless one was. -/
def Completion.afterLoss : Bool → List Call → List Completion
  | true, _ :: calls => .failed .surfaceLost :: calls.map Call.afterLoss
  | true, [] => []
  | false, calls => calls.map Call.afterLoss

theorem Completion.kind_of_failed {untold : Bool} {calls : List Call} {why : Fault}
    (h : .failed why ∈ Completion.afterLoss untold calls) : why.kind = .surfaceUnavailable := by
  have hlater {calls : List Call} (h : .failed why ∈ calls.map Call.afterLoss) :
      why.kind = .surfaceUnavailable := by
    obtain ⟨c, _, hc⟩ := List.mem_map.mp h
    cases c with
    | load =>
      cases hc
      rfl
    | stop => cases hc
  cases untold with
  | false => exact hlater h
  | true =>
    cases calls with
    | nil => cases h
    | cons c calls =>
      rcases List.mem_cons.mp h with heq | h
      · cases heq
        rfl
      · exact hlater h

/-- A session that broke down has nothing left. -/
structure Supervisor.Fallen (s : Supervisor σ) : Prop where
  crashed : s.phase = .crashed
  bare : s.Bare
  accounted : s.Accounted

namespace Supervisor.Fallen

variable {out : Surface σ} {s s' : Supervisor σ} {now : Nat}

theorem isOver (h : s.Fallen) : s.isOver = true := by simp [Supervisor.isOver, h.crashed]

theorem of_crash (ha : s.Alive) (h : s.Accounted) : (s.crash out).Fallen := by
  have hcrash : Acts out s (s.crash out) := .crash ha
  refine ⟨rfl, ⟨?_, destroyQueue_queue out _, rfl⟩, ?_⟩
  · simp [Supervisor.crash]
  · exact (hcrash.keep (fun _ _ ha hact h => Accounted.act h ha hact) ha h).2

/-- Nothing brings it back. -/
theorem step (h : s.Fallen) (hs : Step out ⟨now, s⟩ ⟨now, s'⟩) : s'.Fallen := by
  have hb := h.bare
  cases hs with
  | pass | stop | touch => exact ⟨h.crashed, ⟨hb.transport, hb.queue, hb.disarmed⟩, h.accounted⟩
  | notify n =>
    have hi := Idles.notify s n
    exact ⟨hi.phase.trans h.crashed, ⟨hi.transport.trans hb.transport, hi.queue.trans hb.queue,
      hi.timer ▸ hb.disarmed⟩, h.accounted.notify n⟩
  | handle stop hi =>
    have hover := hi.isOver_eq_false
    rw [h.isOver] at hover
    cases hover

end Supervisor.Fallen

theorem Reachable.fallen {out : Surface σ} {m : Moment σ} (h : Reachable out m)
    (hp : m.supervisor.phase = .crashed) : m.supervisor.Fallen := by
  have hbare : m.supervisor.Bare := by
    cases h.sound with
    | crashed _ _ hb => exact hb
    | _ => simp_all
  exact ⟨hp, hbare, h.accounted⟩

/-- A session may break down between any two of its acts. -/
theorem Reachable.fallen_of_acts {out : Surface σ} {m : Moment σ} {s : Supervisor σ}
    (h : Reachable out m) (hs : Acts out m.supervisor s) : (s.crash out).Fallen := by
  obtain ⟨halive, haccounted⟩ :=
    hs.keep (fun _ _ ha hact h => Accounted.act h ha hact) h.alive h.accounted
  exact .of_crash halive haccounted

namespace Succession

/-- What happens to a player, with the answer that somebody is given. Sessions may break down. -/
inductive Happens (out : Surface σ) :
    Succession σ → Option (Call × Completion) → Succession σ → Prop where
  | pass {w : Succession σ} {later : Nat} (h : w.now ≤ later) :
      Happens out w none { w with now := later }
  | touch (w : Succession σ) (f : σ → σ) :
      Happens out w none { w with player := { w.player with surface := w.player.surface.map f } }
  | act {w : Succession σ} {k : Nat} {s s' : Supervisor σ} (hk : w.sessions[k]? = some s)
      (h : Step out ⟨w.now, s⟩ ⟨w.now, s'⟩) : Happens out w none (w.setSession k s')
  /-- A session breaks down in the middle of what it does. -/
  | collapse {w : Succession σ} {k : Nat} {s s' : Supervisor σ} (hk : w.sessions[k]? = some s)
      (ho : s.isOver = false) (h : Acts out s s') :
      Happens out w none (w.setSession k (s'.crash out))
  | begin {w : Succession σ} (c : Call) (h : w.call = none) : Happens out w none (w.begin c)
  | finish {w : Succession σ} {c : Call} (tracing : Bool) (hc : w.call = some c)
      (hr : w.ready = true) :
      Happens out w (some (c, (w.finish tracing c).1)) (w.finish tracing c).2

/-- A run of a player, with all answers it gave. -/
inductive Goes (out : Surface σ) :
    Succession σ → List (Call × Completion) → Succession σ → Prop where
  | rest (w : Succession σ) : Goes out w [] w
  | move {w w₁ w' : Succession σ} {a : Option (Call × Completion)}
      {answers : List (Call × Completion)} (h : Happens out w a w₁) (h' : Goes out w₁ answers w') :
      Goes out w (a.toList ++ answers) w'

variable {out : Surface σ} {config : Config} {w w₁ w' : Succession σ} {k : Nat}
  {s s' : Supervisor σ} {answers : List (Call × Completion)}

theorem Goes.trans {later : List (Call × Completion)} (h : Goes out w answers w₁)
    (h' : Goes out w₁ later w') : Goes out w (answers ++ later) w' := by
  induction h with
  | rest => exact h'
  | move hm _ ih =>
    rw [List.append_assoc]
    exact .move hm (ih h')

/-! ## Once the surface is lost -/

/-- The surface is gone, and no session is left that could do anything. -/
structure Bereft (w : Succession σ) : Prop where
  surface : w.player.surface = none
  crashed : ∀ k, w.player.session = some k → ∃ s, w.sessions[k]? = some s ∧ s.phase = .crashed
  halted : ∀ (k : Nat) s, w.sessions[k]? = some s → s.isOver = true
  last : ∀ (k : Nat) s, w.sessions[k]? = some s → s.phase = .crashed →
    s.Fallen ∧ k + 1 = w.sessions.length

/-- There are no other sessions than before, and all they note is what their sinks report. -/
structure Remains (w w' : Succession σ) : Prop where
  length : w'.sessions.length = w.sessions.length
  silent : ∀ (k : Nat) s, w.sessions[k]? = some s →
    ∃ s', w'.sessions[k]? = some s' ∧ s'.phase = s.phase ∧ s.journal.Echoes s'.journal

theorem Remains.of_sessions (h : w'.sessions = w.sessions) : Remains w w' :=
  ⟨congrArg List.length h, fun _ s hs => ⟨s, h ▸ hs, rfl, .refl _⟩⟩

theorem Remains.trans (h : Remains w w₁) (h' : Remains w₁ w') : Remains w w' := by
  refine ⟨h'.length.trans h.length, fun k s hs => ?_⟩
  obtain ⟨s₁, hs₁, hp₁, hechoes₁⟩ := h.silent k s hs
  obtain ⟨s', hs', hp', hechoes'⟩ := h'.silent k s₁ hs₁
  exact ⟨s', hs', hp'.trans hp₁, hechoes₁.trans hechoes'⟩

namespace Bereft

theorem of_nil (hnil : w.sessions = []) (hsurface : w.player.surface = none)
    (hsession : w.player.session = none) : Bereft w := by
  have hempty (k : Nat) (s : Supervisor σ) : w.sessions[k]? ≠ some s := by simp [hnil]
  refine ⟨hsurface, fun k hk => ?_, fun k s hs => ?_, fun k s hs => ?_⟩
  · cases hsession.symm.trans hk
  · exact absurd hs (hempty k s)
  · exact absurd hs (hempty k s)

theorem ready (h : Bereft w) : w.ready = true := by
  cases hk : w.player.session with
  | none => simp [Succession.ready, current?_of_none hk]
  | some k =>
    obtain ⟨s, hs, hp⟩ := h.crashed k hk
    simp [Succession.ready, current?_of_some hk, hs, isOver, hp]

theorem congr (h : Bereft w) (hsurface : w'.player.surface = none)
    (hsession : w'.player.session = w.player.session ∨ w'.player.session = none)
    (hsessions : w'.sessions = w.sessions) : Bereft w' := by
  refine ⟨hsurface, fun k hk => ?_, hsessions ▸ h.halted, hsessions ▸ h.last⟩
  rw [hsessions]
  refine h.crashed k ?_
  rcases hsession with hsession | hsession
  · exact hsession.symm.trans hk
  · cases hsession.symm.trans hk

theorem act (h : Bereft w) (hs : w.sessions[k]? = some s)
    (step : Step out ⟨w.now, s⟩ ⟨w.now, s'⟩) :
    Bereft (w.setSession k s') ∧ Remains w (w.setSession k s') := by
  obtain ⟨hp, hechoes⟩ := step.of_over (h.halted k s hs)
  have hlength : (w.setSession k s').sessions.length = w.sessions.length := List.length_set
  refine ⟨⟨h.surface, fun j hj => ?_, fun j t ht => ?_, fun j t ht hc => ?_⟩,
    ⟨hlength, fun j t ht => ?_⟩⟩
  · obtain ⟨t, ht, hc⟩ := h.crashed j hj
    by_cases hjk : j = k
    · subst hjk
      cases hs.symm.trans ht
      exact ⟨s', setSession_self hs, hp.trans hc⟩
    · exact ⟨t, (setSession_of_ne hjk).trans ht, hc⟩
  · rcases getElem?_setSession hs ht with ⟨_, rfl⟩ | ⟨_, ht⟩
    · rw [isOver, hp]
      exact h.halted k s hs
    · exact h.halted j t ht
  · rw [hlength]
    rcases getElem?_setSession hs ht with ⟨rfl, rfl⟩ | ⟨_, ht⟩
    · obtain ⟨hfallen, hlast⟩ := h.last j s hs (hp.symm.trans hc)
      exact ⟨hfallen.step step, hlast⟩
    · exact h.last j t ht hc
  · by_cases hjk : j = k
    · subst hjk
      cases hs.symm.trans ht
      exact ⟨s', setSession_self hs, hp, hechoes⟩
    · exact ⟨t, (setSession_of_ne hjk).trans ht, rfl, .refl _⟩

theorem begin (out : Surface σ) (h : Bereft w) (c : Call) :
    Bereft (w.begin c) ∧ Remains w (w.begin c) := by
  cases hk : w.player.session with
  | none =>
    have hsessions : (w.begin c).sessions = w.sessions := by simp only [Succession.begin, hk]
    exact ⟨h.congr h.surface (.inl rfl) hsessions, .of_sessions hsessions⟩
  | some k =>
    obtain ⟨s, hs, _⟩ := h.crashed k hk
    have hstop : Step out ⟨w.now, s⟩ ⟨w.now, s.requestStop⟩ := .stop _
    obtain ⟨hbereft, hremains⟩ := h.act hs hstop
    rw [Kept.begin_of_some c hk hs]
    exact ⟨hbereft.congr hbereft.surface (.inl rfl) rfl, hremains.trans (.of_sessions rfl)⟩

/-- The answer of a call, and that it leaves nothing but the sessions there were. -/
theorem finish (h : Bereft w) (tracing : Bool) (c : Call) :
    ∃ player : Player σ Nat, player.surface = none ∧ player.session = none ∧
      w.finish tracing c =
        (if w.player.session.isSome then .failed .surfaceLost else c.afterLoss,
          { w with player, call := none }) := by
  have hsurface := h.surface
  cases hk : w.player.session with
  | none =>
    have hreclaim : w.player.reclaim w.returned? = (.ok (), w.player) := by
      simp only [Player.reclaim, hk]
    refine ⟨w.player, hsurface, hk, ?_⟩
    cases c with
    | stop =>
      simp only [Succession.finish, hreclaim]
      rfl
    | load url =>
      have hlend : w.player.lend = .error Player.lostFault := by
        simp only [Player.lend, hsurface]
      simp only [Succession.finish, Player.relend, hreclaim, hlend]
      rfl
  | some k =>
    obtain ⟨s, hs, hp⟩ := h.crashed k hk
    have hreturned : w.returned? = none := by
      simp [returned?, current?_of_some hk, hs, hp]
    have hreclaim : w.player.reclaim w.returned? =
        (.error .surfaceLost, { w.player with session := none }) := by
      simp only [Player.reclaim, hk, hreturned]
    refine ⟨{ w.player with session := none }, hsurface, rfl, ?_⟩
    cases c with
    | stop =>
      simp only [Succession.finish, hreclaim]
      rfl
    | load url =>
      simp only [Succession.finish, Player.relend, hreclaim]
      rfl

/-- What happens to a player without a surface. -/
theorem happens (h : Bereft w) {a : Option (Call × Completion)} (hm : Happens out w a w') :
    Bereft w' ∧ Remains w w' ∧ w'.player.session = (if a.isSome then none else w.player.session) ∧
      ∀ c x, a = some (c, x) →
        x = if w.player.session.isSome then .failed .surfaceLost else c.afterLoss := by
  cases hm with
  | pass => exact ⟨h.congr h.surface (.inl rfl) rfl, .of_sessions rfl, rfl, nofun⟩
  | touch f =>
    have hnone : w.player.surface.map f = none := by rw [h.surface, Option.map_none]
    exact ⟨h.congr hnone (.inl rfl) rfl, .of_sessions rfl, rfl, nofun⟩
  | act hs step =>
    obtain ⟨hbereft, hremains⟩ := h.act hs step
    exact ⟨hbereft, hremains, rfl, nofun⟩
  | collapse hs ho =>
    rw [h.halted _ _ hs] at ho
    cases ho
  | begin c =>
    obtain ⟨hbereft, hremains⟩ := h.begin out c
    exact ⟨hbereft, hremains, rfl, nofun⟩
  | finish tracing =>
    obtain ⟨player, hsurface, hsession, hfinish⟩ := h.finish tracing _
    rw [hfinish]
    refine ⟨h.congr hsurface (.inr hsession) rfl, .of_sessions rfl, hsession, fun c x ha => ?_⟩
    cases ha
    rfl

theorem goes (h : Bereft w) (hm : Goes out w answers w') :
    Bereft w' ∧ Remains w w' ∧
      answers.map Prod.snd =
        Completion.afterLoss w.player.session.isSome (answers.map Prod.fst) ∧
      w'.player.session = if answers = [] then w.player.session else none := by
  induction hm with
  | rest w =>
    refine ⟨h, .of_sessions rfl, ?_, rfl⟩
    cases w.player.session.isSome <;> rfl
  | @move w w₁ w' a answers hm _ ih =>
    obtain ⟨hbereft₁, hremains₁, hsession₁, ha⟩ := h.happens hm
    obtain ⟨hbereft, hremains, hanswers, hsession⟩ := ih hbereft₁
    refine ⟨hbereft, hremains₁.trans hremains, ?_, ?_⟩
    · cases a with
      | none =>
        have hsame : w₁.player.session = w.player.session := hsession₁
        rwa [hsame] at hanswers
      | some a =>
        obtain ⟨c, x⟩ := a
        have hnone : w₁.player.session = none := hsession₁
        rw [hnone] at hanswers
        have hx := ha c x rfl
        simp only [Option.toList_some, List.singleton_append, List.map_cons, hanswers, hx]
        cases w.player.session.isSome <;> rfl
    · cases a with
      | none =>
        have hsame : w₁.player.session = w.player.session := hsession₁
        rw [hsession, hsame]
        rfl
      | some a =>
        have hnone : w₁.player.session = none := hsession₁
        rw [hsession, hnone]
        simp

end Bereft

/-! ## Until it is lost -/

/-- A session that broke down still is the player's, so that the next call hears of it. -/
def Untold (w : Succession σ) : Prop :=
  ∀ (k : Nat) s, w.sessions[k]? = some s → s.phase = .crashed → w.player.session = some k

namespace Kept

/-- Only the session that plays is not over. -/
theorem session_of_not_over (h : Kept out config w) (hs : w.sessions[k]? = some s)
    (ho : s.isOver = false) : w.player.session = some k := by
  apply Decidable.byContradiction
  intro hk
  simp [isOver, h.earlier k s hs hk] at ho

theorem untold (h : Kept out config w) : w.Untold :=
  fun k s hs hp => absurd hp (h.sturdy k s hs)

/-- A session that breaks down was not over before. -/
theorem fallen (h : Kept out config w) (hs : w.sessions[k]? = some s)
    (step : Step out ⟨w.now, s⟩ ⟨w.now, s'⟩) (hp : s'.phase = .crashed) :
    s.isOver = false ∧ s'.Fallen := by
  constructor
  · apply eq_false_of_ne_true
    intro ho
    exact h.sturdy k s hs ((step.of_over ho).1.symm.trans hp)
  · exact ((h.reachable k s hs).step step).fallen hp

/-- The session that plays breaks down. -/
theorem fall (h : Kept out config w) (hs : w.sessions[k]? = some s) (ho : s.isOver = false)
    (hf : s'.Fallen) : Bereft (w.setSession k s') ∧ (w.setSession k s').Untold := by
  have hk : w.player.session = some k := h.session_of_not_over hs ho
  have hlength : (w.setSession k s').sessions.length = w.sessions.length := List.length_set
  have hothers {j : Nat} {t : Supervisor σ} (hj : j ≠ k) (ht : w.sessions[j]? = some t) :
      t.phase = .ended := by
    apply h.earlier j t ht
    rw [hk]
    intro heq
    exact hj (Option.some.inj heq).symm
  have hcrashed {j : Nat} {t : Supervisor σ} (ht : (w.setSession k s').sessions[j]? = some t)
      (hc : t.phase = .crashed) : j = k ∧ t = s' := by
    rcases getElem?_setSession hs ht with heq | ⟨hj, ht⟩
    · exact heq
    · cases (hothers hj ht).symm.trans hc
  refine ⟨⟨h.surface_eq_none hk, ?_, ?_, ?_⟩, ?_⟩
  · intro j hj
    obtain rfl : k = j := Option.some.inj (hk.symm.trans hj)
    exact ⟨s', setSession_self hs, hf.crashed⟩
  · intro j t ht
    rcases getElem?_setSession hs ht with ⟨_, rfl⟩ | ⟨hj, ht⟩
    · exact hf.isOver
    · simp [isOver, hothers hj ht]
  · intro j t ht hc
    obtain ⟨rfl, rfl⟩ := hcrashed ht hc
    exact ⟨hf, hlength.symm ▸ h.last j hk⟩
  · intro j t ht hc
    obtain ⟨rfl, _⟩ := hcrashed ht hc
    exact hk

/-- Nobody waits any more. -/
theorem answered (h : Kept out config w) : Kept out config { w with call := none } := by
  refine ⟨h.config, h.one, h.last, h.reachable, h.sturdy, h.earlier, ?_⟩
  intro c s hc
  cases hc

/-- Without a session there is nothing to stop. -/
theorem finish_stop_of_nil (h : Kept out config w) (hnil : w.sessions = []) (tracing : Bool) :
    w.finish tracing .stop = (.done, { w with call := none }) := by
  have hnone : w.player.session = none := by
    apply Option.eq_none_iff_forall_ne_some.mpr
    intro k hk
    have hlast := h.last k hk
    simp [hnil] at hlast
  have hreclaim : w.player.reclaim w.returned? = (.ok (), w.player) := by
    simp only [Player.reclaim, hnone]
  simp only [Succession.finish, hreclaim]
  rfl

/-- Without memory for its events a session does not start, and the surface is gone. -/
theorem finish_load_of_no_room (h : Kept out config w) (hr : w.ready = true) (tracing : Bool)
    (url : String) (hroom : Broadcast.available config.eventCapacity.toNat = false) :
    w.finish tracing (.load url) =
      (.broken, { w with player := ⟨config, none, none⟩, call := none }) := by
  obtain ⟨x, _, hreclaim⟩ := h.reclaim hr
  have hrelend : w.player.relend w.returned? = (.ok x, ⟨config, none, none⟩) := by
    simp [Player.relend, hreclaim, Player.lend]
  simp only [Succession.finish, hrelend, Start.launch, hroom, Bool.false_eq_true, if_false]
  rfl

/-- Without memory for its events no session is ever started. -/
theorem finish_of_nil (h : Kept out config w) (hr : w.ready = true) (hnil : w.sessions = [])
    (tracing : Bool) (c : Call)
    (hroom : Broadcast.available config.eventCapacity.toNat = false) :
    (w.finish tracing c).2.sessions = [] ∧
      (Kept out config (w.finish tracing c).2 ∨ Bereft (w.finish tracing c).2) := by
  cases c with
  | stop =>
    rw [h.finish_stop_of_nil hnil tracing]
    exact ⟨hnil, .inl h.answered⟩
  | load url =>
    rw [h.finish_load_of_no_room hr tracing url hroom]
    exact ⟨hnil, .inr (.of_nil hnil rfl rfl)⟩

end Kept

/-- A player that is sound, or has lost its surface. -/
inductive Fares (out : Surface σ) (config : Config) (w : Succession σ) : Prop where
  | kept (h : Kept out config w)
      (hroom : Broadcast.available config.eventCapacity.toNat = true ∨ w.sessions = []) :
      Fares out config w
  | bereft (h : Bereft w) : Fares out config w

/-- A session that breaks down is the one that plays. -/
theorem Kept.happens {a : Option (Call × Completion)} (h : Kept out config w)
    (hroom : Broadcast.available config.eventCapacity.toNat = true ∨ w.sessions = [])
    (hm : Happens out w a w') : Fares out config w' ∧ w'.Untold := by
  have stays (h' : Kept out config w')
      (hroom' : Broadcast.available config.eventCapacity.toNat = true ∨ w'.sessions = []) :
      Fares out config w' ∧ w'.Untold := ⟨.kept h' hroom', h'.untold⟩
  cases hm with
  | pass hn => exact stays (h.pass hn) hroom
  | touch f => exact stays (h.touch f) hroom
  | @act k s s' hs step =>
    by_cases hp : s'.phase = .crashed
    · obtain ⟨ho, hfallen⟩ := h.fallen hs step hp
      exact (h.fall hs ho hfallen).imp_left .bereft
    · refine stays (h.act hs step hp) (hroom.imp_right fun hnil => ?_)
      rw [Succession.setSession, hnil, List.set_nil]
  | collapse hs ho hacts =>
    exact (h.fall hs ho ((h.reachable _ _ hs).fallen_of_acts hacts)).imp_left .bereft
  | begin c =>
    refine stays (h.begin c) (hroom.imp_right fun hnil => ?_)
    simp only [Succession.begin, hnil, List.modify_nil]
    split <;> rfl
  | @finish c tracing _ hr =>
    cases hmemory : Broadcast.available config.eventCapacity.toNat with
    | true => exact stays (h.finish hr tracing c hmemory) (.inl hmemory)
    | false =>
      have hnil : w.sessions = [] := hroom.resolve_left (by simp [hmemory])
      obtain ⟨hnil', hkept | hbereft⟩ := h.finish_of_nil hr hnil tracing c hmemory
      · exact stays hkept (.inr hnil')
      · refine ⟨.bereft hbereft, fun k s hs => ?_⟩
        simp [hnil'] at hs

namespace Fares

theorem happens {a : Option (Call × Completion)} (h : Fares out config w)
    (hm : Happens out w a w') : Fares out config w' := by
  cases h with
  | kept h hroom => exact (h.happens hroom hm).1
  | bereft h => exact .bereft (h.happens hm).1

theorem goes (h : Fares out config w) (hm : Goes out w answers w') : Fares out config w' := by
  induction hm with
  | rest => exact h
  | move hm _ ih => exact ih (h.happens hm)

end Fares

/-! ## What callers see -/

/-- A session has the surface until it breaks down, or until the player took it back. -/
def HeldBy (w : Succession σ) (k : Nat) : Prop :=
  ∃ s, w.sessions[k]? = some s ∧
    (s.isOver = false ∨ s.phase = .ended ∧ w.player.session = some k)

/-- What is left after a session broke down. -/
structure Lost (out : Surface σ) (w : Succession σ) (k : Nat) (s : Supervisor σ) : Prop where
  /-- It was the last one, and gave up all it had. -/
  last : k + 1 = w.sessions.length
  bare : s.Bare
  sinks : ∀ g codecs, .created g codecs ∈ s.journal → s.journal.releases g = 1
  surface : w.player.surface = none
  /-- Nobody waits for it. -/
  ready : w.ready = true
  /-- Nothing is started any more, and no connect either. -/
  remains : ∀ answers w', Goes out w answers w' → Remains w w'
  /-- The next call is told that the surface is lost, and the player has no session then. -/
  answers : ∀ answers w', Goes out w answers w' →
    answers.map Prod.snd =
        Completion.afterLoss w.player.session.isSome (answers.map Prod.fst) ∧
      w'.player.session = if answers = [] then w.player.session else none
  faults : ∀ answers w', Goes out w answers w' → ∀ c why, (c, .failed why) ∈ answers →
    why.kind = .surfaceUnavailable

/-- How a player gets on whose sessions may break down at any point. -/
structure Endures (out : Surface σ) (w : Succession σ) : Prop where
  /-- The surface is in one place at a time. -/
  one : ∀ k, w.HeldBy k → w.player.surface = none ∧ ∀ j, w.HeldBy j → j = k
  /-- A session that breaks down still is the player's, so that the next call hears of it. -/
  falls : ∀ a w' (k : Nat) s, Happens out w a w' → w'.sessions[k]? = some s →
    s.phase = .crashed → (∀ t, w.sessions[k]? = some t → t.phase ≠ .crashed) →
    w'.player.session = some k
  lost : ∀ (k : Nat) s, w.sessions[k]? = some s → s.phase = .crashed → Lost out w k s

theorem Bereft.lost (h : Bereft w) (hs : w.sessions[k]? = some s) (hp : s.phase = .crashed) :
    Lost out w k s := by
  obtain ⟨hfallen, hlast⟩ := h.last k s hs hp
  refine ⟨hlast, hfallen.bare, ?_, h.surface, h.ready, ?_, ?_, ?_⟩
  · intro g codecs hc
    exact hfallen.accounted.releases_eq_one hfallen.bare.queue hc
  · intro answers w' hm
    exact (h.goes hm).2.1
  · intro answers w' hm
    exact (h.goes hm).2.2
  · intro answers w' hm c why hmem
    have hanswer : .failed why ∈ answers.map Prod.snd := List.mem_map_of_mem hmem
    rw [(h.goes hm).2.2.1] at hanswer
    exact Completion.kind_of_failed hanswer

theorem Fares.endures (h : Fares out config w) : Endures out w := by
  cases h with
  | bereft h =>
    refine ⟨fun k hk => ?_, fun a w' k s hm hs hp hbefore => ?_, fun k s hs hp => h.lost hs hp⟩
    · obtain ⟨s, hs, ho | ⟨hp, hk⟩⟩ := hk
      · rw [h.halted k s hs] at ho
        cases ho
      · obtain ⟨t, ht, hc⟩ := h.crashed k hk
        cases hs.symm.trans ht
        cases hp.symm.trans hc
    · -- No session breaks down after the one that took the surface with it.
      have hremains : Remains w w' := (h.happens hm).2.1
      have hlt : k < w.sessions.length := by
        rw [← hremains.length]
        exact (List.getElem?_eq_some_iff.mp hs).1
      have ht : w.sessions[k]? = some w.sessions[k] := List.getElem?_eq_getElem hlt
      obtain ⟨s', hs', hphase, _⟩ := hremains.silent k _ ht
      cases hs.symm.trans hs'
      exact absurd (hphase.symm.trans hp) (hbefore _ ht)
  | kept h hroom =>
    have hcurrent {k : Nat} (hk : w.HeldBy k) : w.player.session = some k := by
      obtain ⟨s, hs, ho | ⟨_, hk⟩⟩ := hk
      · exact h.session_of_not_over hs ho
      · exact hk
    refine ⟨fun k hk => ⟨h.surface_eq_none (hcurrent hk), fun j hj => ?_⟩,
      fun a w' k s hm hs hp _ => (h.happens hroom hm).2 k s hs hp,
      fun k s hs hp => absurd hp (h.sturdy k s hs)⟩
    exact Option.some.inj ((hcurrent hj).symm.trans (hcurrent hk))

/-- A session that breaks down, wherever that happens, takes the surface with it and nothing else:
whoever calls next is told so, every later load fails, and every later stop has nothing to do. -/
theorem surface_lost_cleanly {now : Nat} {player : Player σ Nat} {x : σ}
    (hp : Player.create config x = .ok player) (h : Goes out ⟨now, player, [], none⟩ answers w) :
    w.Endures out := by
  have hkept : Kept out config ⟨now, player, [], none⟩ := .create now hp
  have hfares : Fares out config w := Fares.goes (.kept hkept (.inr rfl)) h
  exact hfares.endures

/-- The first session breaks down over an announcement; the second one is never started. -/
theorem surface_lost_cleanly_of_overflow :
    let out := Rehearsal.Stage.surface
    let act (w : Succession Rehearsal.Stage) (i : Input) : Succession Rehearsal.Stage :=
      { w with sessions := w.sessions.modify 0 fun s => s.handle out w.now i }
    let first : Call := .load "ws://north"
    let second : Call := .load "ws://south"
    let idle : Succession Rehearsal.Stage := ⟨0, ⟨{}, some (.create false), none⟩, [], none⟩
    let loaded := (idle.begin first).finish true first
    let announcement := FrameTag.codec.build "avc1".toUTF8
    let overflow := FrameTag.metadata.build
      "\x7b\"observers\":\x7b\"a\":9223372036854775807,\"b\":1\x7d\x7d".toUTF8
    let played := act (act (act loaded.2 .begin) .connected) (.received (.frame announcement))
    let fallen := act played (.received (.frame overflow))
    let told := (fallen.begin second).finish true second
    let stopped := (told.2.begin .stop).finish true .stop
    (fallen.sessions.map fun s =>
        (s.phase, s.journal.select Entry.created?, s.journal.releases 1)) = [(.crashed, [1], 1)] ∧
      fallen.Endures out ∧ [told.1, stopped.1] = [.failed .surfaceLost, .done] ∧
      Remains fallen stopped.2 := by
  intro out act first second idle loaded announcement overflow played fallen told stopped
  have hact {w : Succession Rehearsal.Stage} {i : Input} (hlt : 0 < w.sessions.length)
      (hi : Admits w.sessions[0] w.now i) : Happens out w none (act w i) := by
    have hs : w.sessions[0]? = some w.sessions[0] := List.getElem?_eq_getElem hlt
    have hset : act w i = w.setSession 0 (w.sessions[0].handle out w.now i) := by
      simp only [act, Succession.setSession, List.modify_eq_set_getElem?, hs]
      rfl
    rw [hset]
    exact .act hs (.handle (m := ⟨w.now, w.sessions[0]⟩) false hi)
  have hcreate : Player.create {} (Rehearsal.Stage.create false) = .ok idle.player := rfl
  have hloaded : Goes out idle [(first, loaded.1)] loaded.2 :=
    .move (.begin first rfl) (.move (.finish true rfl rfl) (.rest _))
  have hplayed : Goes out loaded.2 [] played := by
    refine .move (hact ?_ (.begin ?_)) (.move (hact ?_ (.connected ?_ ?_))
      (.move (hact ?_ (.received _ ?_ ?_ ?_)) (.rest _))) <;> decide +kernel
  have hover : Goes out played [] fallen := by
    refine .move (hact ?_ (.received _ ?_ ?_ ?_)) (.rest _) <;> decide +kernel
  have hstopped : Goes out fallen [(second, told.1), (.stop, stopped.1)] stopped.2 :=
    .move (.begin second (by decide +kernel)) (.move (.finish true rfl (by decide +kernel))
      (.move (.begin .stop (by decide +kernel)) (.move (.finish true rfl (by decide +kernel))
        (.rest _))))
  have hendures : fallen.Endures out :=
    surface_lost_cleanly hcreate (hloaded.trans (hplayed.trans hover))
  have hs : fallen.sessions[0]? = some (fallen.sessions.get ⟨0, by decide +kernel⟩) :=
    List.getElem?_eq_getElem (by decide +kernel)
  have hlost := hendures.lost 0 _ hs (by decide +kernel)
  have hsession : fallen.player.session.isSome = true := by decide +kernel
  have hanswers := (hlost.answers _ _ hstopped).1
  rw [hsession] at hanswers
  exact ⟨by decide +kernel, hendures, hanswers, hlost.remains _ _ hstopped⟩

end Succession
end LivePlayback
