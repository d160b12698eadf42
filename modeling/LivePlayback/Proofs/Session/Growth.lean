import LivePlayback.Proofs.Session.Course
import LivePlayback.Proofs.Session.Passages

/-!
# The growth of journals

What stands in a journal stays there: everything that happens to a session only adds to it. Of a
session that is over nothing is added any more but what its sinks report, so whatever else can be
read off its journal is final then.
-/

namespace LivePlayback
set_option autoImplicit false

open Supervisor

variable {σ : Type} {out : Surface σ}

/-! ## Every step adds to the journal -/

theorem Hears.journal_suffix {s s' : Supervisor σ} (h : Hears out s s') :
    s.journal <:+ s'.journal := by
  obtain ⟨notices, _, hj⟩ := h.heard
  exact ⟨Journal.ofNotices notices, hj.symm⟩

namespace Supervisor

variable (s : Supervisor σ)

theorem absorb_suffix (a : Aftermath σ) : s.journal <:+ (s.absorb a).journal :=
  ⟨Journal.ofNotices a.notices, rfl⟩

theorem note_suffix (e : Entry) : s.journal <:+ (s.note e).journal := ⟨[e], rfl⟩

theorem offerTo_suffix (generation : Nat) (chunk : ByteArray) (accepted : Bool) :
    s.journal <:+ (s.offerTo out generation chunk accepted).journal :=
  (s.note_suffix _).trans (absorb_suffix _ _)

theorem release_suffix (q : AppendQueue) : s.journal <:+ (s.release out q).journal := by
  have hreleased : s.journal <:+ (({ s with queue := none }.note (.released q.generation)).absorb
      (out.release s.surface q.generation)).journal :=
    (note_suffix { s with queue := none } _).trans (absorb_suffix _ _)
  exact hreleased.trans (note_suffix _ _)

theorem announce_suffix (f : ByteArray) (codecs : Codecs) :
    s.journal <:+ ((s.register f).announce out codecs).journal := by
  have hdestroyed : (s.register f).journal <:+ ((s.register f).destroyQueue out).journal := by
    rcases destroyQueue_cases out (s.register f) with h | ⟨q, _, h⟩
    · simp [h]
    · rw [h]
      exact release_suffix _ q
  have hregistered : s.journal <:+ (s.register f).journal := ⟨[.received f], rfl⟩
  exact (hregistered.trans hdestroyed).trans ⟨[.asked codecs.mimeType], rfl⟩

theorem notify_suffix (n : Notice) : s.journal <:+ (s.notify n).journal := by
  unfold notify
  simp only
  split <;> exact s.note_suffix _

end Supervisor

theorem PlayAct.journal_suffix {s s' : Supervisor σ} (h : PlayAct out s s') :
    s.journal <:+ s'.journal := by
  cases h with
  | hear h => exact h.journal_suffix
  | accept | refuse => exact offerTo_suffix s _ _ _
  | install _ _ h =>
    have hheard := (announce_suffix s _ _).trans h.journal_suffix
    exact hheard.trans ⟨[_, _], rfl⟩
  | decline _ _ h =>
    have hheard := (announce_suffix s _ _).trans h.journal_suffix
    exact hheard.trans (note_suffix _ _)
  | falter _ _ h => exact (announce_suffix s _ _).trans h.journal_suffix
  | publish => exact ⟨[_, _, _], rfl⟩
  | ignore => exact List.suffix_refl _
  | _ => exact ⟨[_], rfl⟩

theorem Act.journal_suffix {s s' : Supervisor σ} (h : Act out s s') : s.journal <:+ s'.journal := by
  cases h with
  | play h => exact h.journal_suffix
  | breakdown h =>
    cases h with
    | mk => exact absorb_suffix s _
  | quiet h =>
    obtain ⟨entries, _, hj⟩ := h.journal
    exact ⟨entries, hj.symm⟩
  | release => exact release_suffix s _
  | retire _ hs =>
    rw [setState, if_neg hs]
    exact ⟨[_, _], rfl⟩
  | opened | drop | disconnect => exact ⟨[_], rfl⟩

theorem Acts.journal_suffix {s s' : Supervisor σ} (h : Acts out s s') :
    s.journal <:+ s'.journal := by
  induction h with
  | refl => exact List.suffix_refl _
  | tail _ act ih => exact ih.trans act.journal_suffix

theorem Step.journal_suffix {m m' : Moment σ} (hm : Reachable out m) (h : Step out m m') :
    m.journal <:+ m'.journal := by
  cases h with
  | pass | stop | touch => exact List.suffix_refl _
  | notify n => exact notify_suffix _ n
  | handle stop hi => exact (Acts.of_admits hm.sound hi stop).journal_suffix

theorem Run.journal_suffix {m m' : Moment σ} (hm : Reachable out m) (h : Run out m m') :
    m.journal <:+ m'.journal := by
  induction h with
  | refl => exact List.suffix_refl _
  | tail h step ih => exact ih.trans (step.journal_suffix (hm.run h))

theorem Journal.select_prefix {α : Type} {j j' : Journal} (h : j <:+ j') (f : Entry → Option α) :
    j.select f <+: j'.select f := by
  obtain ⟨later, rfl⟩ := h
  exact ⟨Journal.select later f, (select_append later j f).symm⟩

/-! ## Sessions that are over -/

/-- All that is noted is that sinks report. -/
def Journal.Echoes (j j' : Journal) : Prop :=
  ∃ generations : List Nat, j' = generations.map .notified ++ j

namespace Journal.Echoes

variable {j j₁ j₂ : Journal}

theorem refl (j : Journal) : j.Echoes j := ⟨[], rfl⟩

theorem trans (h : j.Echoes j₁) (h' : j₁.Echoes j₂) : j.Echoes j₂ := by
  obtain ⟨generations, rfl⟩ := h
  obtain ⟨generations', rfl⟩ := h'
  exact ⟨generations' ++ generations, by rw [List.map_append, List.append_assoc]⟩

theorem select {α : Type} {f : Entry → Option α} (h : j.Echoes j₁)
    (hf : ∀ g, f (.notified g) = none) : j₁.select f = j.select f := by
  obtain ⟨generations, rfl⟩ := h
  simp [Journal.select, List.filterMap_map, hf]

end Journal.Echoes

theorem Supervisor.notify_of_over {s : Supervisor σ} (h : s.isOver = true) (n : Notice) :
    s.notify n = s.note (.notified n.generation) := by
  have hover : (s.note (.notified n.generation)).isOver = true := h
  simp only [notify, hover, if_true]

theorem Admits.isOver_eq_false {s : Supervisor σ} {now : Nat} {i : Input} (h : Admits s now i) :
    s.isOver = false := by
  cases h with
  | stop hp => rcases hp with hp | hp <;> simp [isOver, hp]
  | begin hp | reconnect hp | notice hp | connected hp | connectFailed _ hp | received _ hp
  | closed hp | connectBroken hp | transportBroken hp | closeBroken hp => simp [isOver, hp]

theorem Step.of_over {m m' : Moment σ} (h : Step out m m') (ho : m.supervisor.isOver = true) :
    m'.supervisor.phase = m.supervisor.phase ∧ m.journal.Echoes m'.journal := by
  cases h with
  | pass | stop | touch => exact ⟨rfl, .refl _⟩
  | notify n =>
    unfold Moment.journal Moment.update
    simp only
    rw [notify_of_over ho]
    exact ⟨rfl, [n.generation], rfl⟩
  | handle stop hi =>
    rw [hi.isOver_eq_false] at ho
    cases ho

theorem Run.of_over {m m' : Moment σ} (h : Run out m m') (ho : m.supervisor.isOver = true) :
    m'.supervisor.phase = m.supervisor.phase ∧ m.journal.Echoes m'.journal := by
  induction h with
  | refl => exact ⟨rfl, .refl _⟩
  | tail _ step ih =>
    obtain ⟨hp, hechoes⟩ := ih
    obtain ⟨hp', hechoes'⟩ := step.of_over (by rwa [isOver, hp])
    exact ⟨hp'.trans hp, hechoes.trans hechoes'⟩

end LivePlayback
