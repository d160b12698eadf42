import LivePlayback.Session.Drive
import Mathlib.Logic.Relation

/-!
# Runs of a session

A moment is a supervisor at a time. A run goes from moment to moment: time passes, somebody outside
acts, or the supervisor handles an input that it may come to. Of the order in which a supervisor
takes what is there, only the rank of a stop is kept, so whatever holds of runs holds for every
order of frames, notices and alarms. A ranked run keeps to the whole order. Driving a supervisor
against a host is a ranked run.
-/

namespace LivePlayback
set_option autoImplicit false

variable {σ : Type}

/-- What a supervisor may come to handle. -/
inductive Admits (s : Supervisor σ) (now : Nat) : Input → Prop where
  | begin (hp : s.phase = .spawned) : Admits s now .begin
  | stop (hp : s.phase = .connecting ∨ s.phase = .waiting) (hs : s.stopRequested = true) :
      Admits s now .stop
  | reconnect (hp : s.phase = .waiting) (hs : s.stopRequested = false)
      (hd : s.timer.due now = true) : Admits s now .reconnect
  | notice {n : Notice} {rest : List Notice} (hp : s.phase = .waiting)
      (hs : s.stopRequested = false) (hn : s.notices = n :: rest) : Admits s now (.notice n)
  | connected (hp : s.phase = .connecting) (hs : s.stopRequested = false) :
      Admits s now .connected
  | connectFailed (why : Fault) (hp : s.phase = .connecting) (hs : s.stopRequested = false) :
      Admits s now (.connectFailed why)
  | received (r : Reception) (hp : s.phase = .waiting) (hs : s.stopRequested = false)
      (ht : s.transport.isSome = true) : Admits s now (.received r)
  | closed {deadline : Nat} (hp : s.phase = .closing deadline) : Admits s now .closed
  | connectBroken (hp : s.phase = .connecting) (hs : s.stopRequested = false) :
      Admits s now .broken
  | transportBroken (hp : s.phase = .waiting) (hs : s.stopRequested = false)
      (ht : s.transport.isSome = true) : Admits s now .broken
  | closeBroken {deadline : Nat} (hp : s.phase = .closing deadline) : Admits s now .broken

def Question.Answers : Question → Input → Prop
  | .connect, i => i = .connected ∨ (∃ why, i = .connectFailed why) ∨ i = .broken
  | .frame, i => (∃ r, i = .received r) ∨ i = .broken
  | .close, i => i = .closed ∨ i = .broken

theorem admits_of_turn_take {s : Supervisor σ} {now : Nat} {i : Input}
    (h : s.turn now = .take i) : Admits s now i := by
  unfold Supervisor.turn at h
  cases hp : s.phase with
  | spawned =>
    simp only [hp, Turn.take.injEq] at h
    exact h ▸ .begin hp
  | connecting =>
    simp only [hp] at h
    split at h
    · rename_i hs
      cases h
      exact .stop (.inl hp) hs
    · cases h
  | waiting =>
    simp only [hp] at h
    split at h
    · rename_i hs
      cases h
      exact .stop (.inr hp) hs
    · rename_i hs
      have hs := eq_false_of_ne_true hs
      split at h
      · rename_i hd
        cases h
        exact .reconnect hp hs hd
      · split at h
        · rename_i n rest hn
          cases h
          exact .notice hp hs hn
        · split at h <;> cases h
  | closing | ended | crashed => simp [hp] at h

theorem admits_of_turn_ask {s : Supervisor σ} {now : Nat} {q : Question} {i : Input}
    (h : s.turn now = .ask q) (hi : q.Answers i) : Admits s now i := by
  unfold Supervisor.turn at h
  cases hp : s.phase with
  | connecting =>
    simp only [hp] at h
    split at h
    · cases h
    · rename_i hs
      have hs := eq_false_of_ne_true hs
      cases h
      rcases hi with rfl | ⟨why, rfl⟩ | rfl
      · exact .connected hp hs
      · exact .connectFailed why hp hs
      · exact .connectBroken hp hs
  | waiting =>
    simp only [hp] at h
    split at h
    · cases h
    · rename_i hs
      have hs := eq_false_of_ne_true hs
      split at h
      · cases h
      · split at h
        · cases h
        · split at h
          · rename_i ht
            cases h
            rcases hi with ⟨r, rfl⟩ | rfl
            · exact .received r hp hs ht
            · exact .transportBroken hp hs ht
          · cases h
  | closing deadline =>
    simp only [hp, Turn.ask.injEq] at h
    subst h
    rcases hi with rfl | rfl
    · exact .closed hp
    · exact .closeBroken hp
  | spawned | ended | crashed => simp [hp] at h

/-- What is next for a supervisor: what it takes, or an answer to what it asks. -/
inductive InTurn (s : Supervisor σ) (now : Nat) : Input → Prop where
  | take {i : Input} (h : s.turn now = .take i) : InTurn s now i
  | answer {q : Question} {i : Input} (h : s.turn now = .ask q) (hi : q.Answers i) :
      InTurn s now i

theorem InTurn.admits {s : Supervisor σ} {now : Nat} {i : Input} (h : InTurn s now i) :
    Admits s now i := by
  cases h with
  | take h => exact admits_of_turn_take h
  | answer h hi => exact admits_of_turn_ask h hi

structure Moment (σ : Type) where
  now : Nat
  supervisor : Supervisor σ

namespace Moment

def journal (m : Moment σ) : Journal := m.supervisor.journal

/-- The moment after somebody changed the supervisor. -/
def update (m : Moment σ) (f : Supervisor σ → Supervisor σ) : Moment σ :=
  { m with supervisor := f m.supervisor }

/-- Handles an input. A stop may be asked for on the way, too late for the supervisor to take it
first. -/
def handle (m : Moment σ) (out : Surface σ) (i : Input) (stop : Bool) : Moment σ :=
  m.update fun s => (s.stopIf stop).handle out m.now i

end Moment

inductive Step (out : Surface σ) : Moment σ → Moment σ → Prop where
  | pass {m : Moment σ} {later : Nat} (h : m.now ≤ later) : Step out m { m with now := later }
  | stop (m : Moment σ) : Step out m (m.update Supervisor.requestStop)
  | notify (m : Moment σ) (n : Notice) : Step out m (m.update (Supervisor.notify · n))
  /-- Something happens to the surface between two calls. -/
  | touch (m : Moment σ) (x : σ) : Step out m (m.update fun s => { s with surface := x })
  | handle {m : Moment σ} {i : Input} (stop : Bool) (h : Admits m.supervisor m.now i) :
      Step out m (m.handle out i stop)

def Run (out : Surface σ) : Moment σ → Moment σ → Prop := Relation.ReflTransGen (Step out)

/-- The moments to which a session can come after it was spawned. -/
inductive Reachable (out : Surface σ) : Moment σ → Prop where
  | spawn (now : Nat) (url : String) (config : Config) (surface : σ) (tracing : Bool) :
      Reachable out ⟨now, .spawn url config surface tracing⟩
  | step {m m' : Moment σ} (hm : Reachable out m) (h : Step out m m') : Reachable out m'

namespace Run

variable {out : Surface σ} {m m₁ m₂ : Moment σ}

theorem refl (m : Moment σ) : Run out m m := Relation.ReflTransGen.refl

theorem single (h : Step out m m₁) : Run out m m₁ := Relation.ReflTransGen.single h

theorem trans (h : Run out m m₁) (h' : Run out m₁ m₂) : Run out m m₂ :=
  Relation.ReflTransGen.trans h h'

end Run

/-- A step in which the supervisor keeps to its order. Between two calls its surface may drift, in
ways that are known. -/
inductive RankedStep (out : Surface σ) (drifts : σ → σ → Prop) : Moment σ → Moment σ → Prop where
  | pass {m : Moment σ} {later : Nat} (h : m.now ≤ later) :
      RankedStep out drifts m { m with now := later }
  | stop (m : Moment σ) : RankedStep out drifts m (m.update Supervisor.requestStop)
  | notify (m : Moment σ) (n : Notice) :
      RankedStep out drifts m (m.update (Supervisor.notify · n))
  | touch {m : Moment σ} {x : σ} (h : drifts m.supervisor.surface x) :
      RankedStep out drifts m (m.update fun s => { s with surface := x })
  | handle {m : Moment σ} {i : Input} (stop : Bool) (h : InTurn m.supervisor m.now i) :
      RankedStep out drifts m (m.handle out i stop)

def RankedRun (out : Surface σ) (drifts : σ → σ → Prop) : Moment σ → Moment σ → Prop :=
  Relation.ReflTransGen (RankedStep out drifts)

theorem RankedStep.step {out : Surface σ} {drifts : σ → σ → Prop} {m m' : Moment σ}
    (h : RankedStep out drifts m m') : Step out m m' := by
  cases h with
  | pass h => exact .pass h
  | stop => exact .stop m
  | notify n => exact .notify m n
  | touch => exact .touch m _
  | handle stop h => exact .handle stop h.admits

theorem RankedRun.run {out : Surface σ} {drifts : σ → σ → Prop} {m m' : Moment σ}
    (h : RankedRun out drifts m m') : Run out m m' := by
  induction h with
  | refl => exact .refl m
  | tail _ step ih => exact ih.trans (.single step.step)

theorem Reachable.run {out : Surface σ} {m m' : Moment σ} (hm : Reachable out m)
    (h : Run out m m') : Reachable out m' := by
  induction h with
  | refl => exact hm
  | tail _ step ih => exact ih.step step

theorem Reachable.exists_run {out : Surface σ} {m : Moment σ} (hm : Reachable out m) :
    ∃ now url config x tracing, Run out ⟨now, .spawn url config x tracing⟩ m := by
  induction hm with
  | spawn now url config x tracing => exact ⟨now, url, config, x, tracing, .refl _⟩
  | step _ step ih =>
    obtain ⟨now, url, config, x, tracing, h⟩ := ih
    exact ⟨now, url, config, x, tracing, h.trans (.single step)⟩

/-! ## Driven supervisors -/

namespace Supervisor

variable {η : Type} {out : Surface σ} {drifts : σ → σ → Prop} {host : Host η} {now : Nat}

theorem ranked_pauseWith {α : Type} (s : Supervisor σ) (r : HostReply η α) (pause : Pause) :
    RankedRun out drifts ⟨now, s⟩ ⟨now, (s.pauseWith r pause).supervisor⟩ := by
  unfold pauseWith
  split
  · exact .single (.stop ⟨now, s⟩)
  · exact .refl

theorem ranked_handleWith {s : Supervisor σ} {i : Input} (hi : InTurn s now i) (stop : Bool) (h : η)
    (cost : Nat) : RankedRun out drifts ⟨now, s⟩
      ⟨now, (handleWith out host now (s.stopIf stop) h i cost).supervisor⟩ :=
  .single (.handle (m := ⟨now, s⟩) stop hi)

theorem ranked_settle {α : Type} {s : Supervisor σ} {q : Question} (hq : s.turn now = .ask q)
    (r : HostReply η α) (input : α → Input) (hi : ∀ a, q.Answers (input a)) :
    RankedRun out drifts ⟨now, s⟩ ⟨now, (s.settle out host now r input).supervisor⟩ := by
  unfold settle
  split
  · rename_i a _
    exact ranked_handleWith (.answer hq (hi a)) r.stop r.host r.cost
  · exact ranked_pauseWith s r .blocked
  · exact ranked_pauseWith s r .busy

theorem connection_answers (c : Connection) : Question.connect.Answers c.input := by
  cases c with
  | opened => exact .inl rfl
  | failed why => exact .inr (.inl ⟨why, rfl⟩)
  | crashed => exact .inr (.inr rfl)

theorem ranked_step (s : Supervisor σ) (h : η) :
    RankedRun out drifts ⟨now, s⟩ ⟨now, (s.step out host now h).supervisor⟩ := by
  unfold step
  split
  · rename_i i hi
    exact ranked_handleWith (.take hi) false h i.cost
  · rename_i hq
    exact ranked_settle hq _ _ connection_answers
  · rename_i hq
    exact ranked_settle hq _ _ fun r => .inl ⟨r, rfl⟩
  · rename_i hq
    have hc : InTurn s now .closed := .answer hq (.inl rfl)
    simp only
    split
    · exact ranked_handleWith hc (host.close h now).stop _ _
    · split
      · exact ranked_handleWith hc false _ _
      · exact ranked_pauseWith s _ .blocked
  · exact .refl
  · exact .refl

theorem ranked_runWithin (turns left : Nat) (s : Supervisor σ) (h : η) :
    RankedRun out drifts ⟨now, s⟩
      ⟨now, (runWithin out host now turns left s h).supervisor⟩ := by
  induction turns generalizing left s h with
  | zero => exact .refl
  | succ turns ih =>
    unfold runWithin
    split
    · exact .refl
    · have hstep : RankedRun out drifts ⟨now, s⟩ ⟨now, (s.step out host now h).supervisor⟩ :=
        ranked_step s h
      simp only
      split
      · exact hstep.trans (ih _ _ _)
      · exact hstep

/-- However far a host drives a supervisor, it gets there by ranked steps. -/
theorem ranked_run (turns : Nat) (s : Supervisor σ) (h : η) :
    RankedRun out drifts ⟨now, s⟩ ⟨now, (s.run out host now turns h).supervisor⟩ :=
  ranked_runWithin turns allowance s h

theorem run_step (s : Supervisor σ) (h : η) :
    Run out ⟨now, s⟩ ⟨now, (s.step out host now h).supervisor⟩ :=
  (ranked_step s h : RankedRun out (fun _ _ => False) _ _).run

theorem run_run (turns : Nat) (s : Supervisor σ) (h : η) :
    Run out ⟨now, s⟩ ⟨now, (s.run out host now turns h).supervisor⟩ :=
  (ranked_run turns s h : RankedRun out (fun _ _ => False) _ _).run

end Supervisor

/-- A host whose connection opens at once and gives what is listed. It stops the session when there
is nothing left to give, and closes in good order. -/
def Host.script : Host (List Reception) where
  connect left _ _ := ⟨.ready .opened, left, false, 0⟩
  receive
    | r :: left, _ => ⟨.ready r, left, false, 0⟩
    | [], _ => ⟨.later, [], true, 0⟩
  close left _ := ⟨.ready (), left, false, 0⟩
  abandon left := left
  drop left := left

namespace Moment

/-- A session after it was driven against such a host. -/
def scripted (out : Surface σ) (x : σ) (receptions : List Reception) (turns : Nat) : Moment σ :=
  ⟨0, ((Supervisor.spawn "ws://camera" {} x false).run out .script 0 turns receptions).supervisor⟩

theorem ranked_scripted (out : Surface σ) (drifts : σ → σ → Prop) (x : σ)
    (receptions : List Reception) (turns : Nat) :
    RankedRun out drifts ⟨0, .spawn "ws://camera" {} x false⟩ (scripted out x receptions turns) :=
  Supervisor.ranked_run turns _ receptions

theorem run_scripted (out : Surface σ) (x : σ) (receptions : List Reception) (turns : Nat) :
    Run out ⟨0, .spawn "ws://camera" {} x false⟩ (scripted out x receptions turns) :=
  Supervisor.run_run turns _ receptions

theorem reachable_scripted (out : Surface σ) (x : σ) (receptions : List Reception) (turns : Nat) :
    Reachable out (scripted out x receptions turns) :=
  (Reachable.spawn 0 "ws://camera" {} x false).run (run_scripted out x receptions turns)

end Moment

end LivePlayback
