import LivePlayback.Proofs.Session.Protocol
import LivePlayback.Proofs.Session.States
import LivePlayback.Proofs.Session.Terminality

/-!
# Retries

A session that loses its connection, or does not get one, tries again when its timer has gone off,
and at no other time. The timer is set once for each loss, for one delay after it, or for the
longest time if the delay is longer.
-/

namespace LivePlayback
set_option autoImplicit false

open Supervisor

variable {σ : Type}

namespace Entry

def onRetries : Entry → Bool
  | .connecting _ _ | .event (.disconnected _) | .armed _ _ | .fired _ => true
  | _ => false

def attempt? : Entry → Option Nat
  | .connecting _ now => some now
  | _ => none

/-- When the timer was set, and for when. -/
def arm? : Entry → Option (Nat × Nat)
  | .armed now deadline => some (now, deadline)
  | _ => none

def isLoss : Entry → Bool
  | .event (.disconnected _) => true
  | _ => false

theorem milestone_of_onRetries {e : Entry} (h : e.onRetries = true) : e.milestone = true := by
  cases e with
  | connecting | event | armed | fired => rfl
  | _ => cases h

end Entry

namespace Journal

def retries (j : Journal) : Journal := j.filter Entry.onRetries

def attempts (j : Journal) : List Nat := j.select Entry.attempt?

def arms (j : Journal) : List (Nat × Nat) := j.select Entry.arm?

/-- Connections that were lost or could not be opened. -/
def losses (j : Journal) : Nat := j.countP Entry.isLoss

theorem retries_append (later j : Journal) : retries (later ++ j) = later.retries ++ j.retries :=
  List.filter_append ..

theorem retries_milestones (j : Journal) : j.milestones.retries = j.retries := by
  unfold retries milestones
  rw [List.filter_filter]
  congr 1
  funext e
  cases he : e.onRetries with
  | true => simp [Entry.milestone_of_onRetries he]
  | false => rfl

theorem attempts_retries (j : Journal) : j.retries.attempts = j.attempts :=
  select_filter (fun e he => by cases e <;> first | rfl | cases he) j

theorem arms_retries (j : Journal) : j.retries.arms = j.arms :=
  select_filter (fun e he => by cases e <;> first | rfl | cases he) j

theorem losses_retries (j : Journal) : j.retries.losses = j.losses :=
  countP_filter (fun e he => by cases e <;> first | cases he | (rename_i e; cases e <;> trivial)) j

end Journal

/-! ## The course of a session -/

namespace Retry

/-- How far a session has come with its attempts. -/
inductive Position where
  | unstarted
  /-- An attempt is under way, or its connection is open. -/
  | trying (since : Nat)
  | waiting (deadline : Nat)
  | ended
  deriving DecidableEq

/-- What a session tells of its attempts, newest first. -/
inductive Told (delay : Duration) : Position → Journal → Prop where
  | unstarted : Told delay .unstarted []
  | first (attempt now : Nat) : Told delay (.trying now) [.connecting attempt now]
  | lost {since : Nat} {told : Journal} (h : Told delay (.trying since) told) (why : Option String)
      {now : Nat} (hn : since ≤ now) : Told delay (.waiting (delay.alarm now))
        (.armed now (delay.alarm now) :: .event (.disconnected why) :: told)
  | again {deadline : Nat} {told : Journal} (h : Told delay (.waiting deadline) told)
      (attempt : Nat) {now : Nat} (hn : deadline ≤ now) :
      Told delay (.trying now) (.connecting attempt now :: .fired now :: told)
  /-- A stop comes while the loss is handled. -/
  | givenUp {since : Nat} {told : Journal} (h : Told delay (.trying since) told)
      (why : Option String) : Told delay .ended (.event (.disconnected why) :: told)
  /-- A stop comes as the timer goes off. -/
  | tooLate {deadline : Nat} {told : Journal} (h : Told delay (.waiting deadline) told) {now : Nat}
      (hn : deadline ≤ now) : Told delay .ended (.fired now :: told)

/-- How many attempts were not lost. -/
def Position.pending : Position → Nat
  | .trying _ => 1
  | .unstarted | .waiting _ | .ended => 0

theorem Position.pending_le_one (pos : Position) : pos.pending ≤ 1 := by
  cases pos <;> simp [pending]

namespace Told

variable {delay : Duration} {pos : Position} {told : Journal}

theorem length_attempts (h : Told delay pos told) :
    (told.filterMap Entry.attempt?).length = told.losses + pos.pending := by
  unfold Journal.losses
  induction h with
  | unstarted | first => rfl
  | lost _ _ _ ih =>
    rw [List.countP_cons_of_neg (by nofun), List.countP_cons_of_pos rfl]
    exact ih
  | again _ _ _ ih =>
    rw [List.countP_cons_of_neg (by nofun), List.countP_cons_of_neg (by nofun)]
    exact congrArg (· + 1) ih
  | givenUp _ _ ih =>
    rw [List.countP_cons_of_pos rfl]
    exact ih
  | tooLate _ _ ih =>
    rw [List.countP_cons_of_neg (by nofun)]
    exact ih

theorem head_of_trying {since : Nat} (h : Told delay (.trying since) told) :
    (told.filterMap Entry.attempt?).head? = some since := by
  cases h <;> rfl

theorem head_of_waiting {deadline : Nat} (h : Told delay (.waiting deadline) told) :
    ∃ since, (told.filterMap Entry.attempt?).head? = some since ∧
      delay.alarm since ≤ deadline := by
  cases h with
  | @lost since told h why now hn =>
    refine ⟨since, h.head_of_trying, ?_⟩
    unfold Duration.alarm
    omega

theorem arm_of_waiting {deadline : Nat} (h : Told delay (.waiting deadline) told) :
    ∃ lost, (told.filterMap Entry.arm?).head? = some (lost, deadline) := by
  cases h
  exact ⟨_, rfl⟩

theorem spaced (h : Told delay pos told) :
    (told.filterMap Entry.attempt?).IsChain fun later earlier => delay.alarm earlier ≤ later := by
  induction h with
  | unstarted => exact .nil
  | first => exact .singleton _
  | lost _ _ _ ih | givenUp _ _ ih | tooLate _ _ ih => exact ih
  | @again deadline told h attempt now hn ih =>
    -- The deadline lies a delay after the loss, and the loss after the attempt before.
    refine List.isChain_cons.mpr ⟨?_, ih⟩
    intro earlier he
    obtain ⟨since, hsince, hdeadline⟩ := h.head_of_waiting
    rw [List.filterMap_cons_none rfl, hsince] at he
    cases he
    exact Nat.le_trans hdeadline hn

end Told

end Retry

open Retry

def Input.opens : Input → Bool
  | .begin | .reconnect => true
  | _ => false

namespace Retry

/-- What a session tells of its attempts while it handles an input, and how it comes out of it. -/
inductive Move (s : Supervisor σ) (now : Nat) : Input → Supervisor σ → Journal → Prop where
  | start {s' : Supervisor σ} (hp : s.phase = .spawned) (hr : s.stopRequested = false)
      (hp' : s'.phase = .connecting) :
      Move s now .begin s' [.connecting (s.totals.connects + 1) now]
  | unstarted {s' : Supervisor σ} (hr : s.stopRequested = true) (hp' : s'.phase = .ended) :
      Move s now .begin s' []
  | again {s' : Supervisor σ} (hp : s.phase = .waiting) (ht : s.transport = none)
      (hr : s.stopRequested = false) (hp' : s'.phase = .connecting) :
      Move s now .reconnect s' [.connecting (s.totals.connects + 1) now, .fired now]
  | tooLate {s' : Supervisor σ} (hp : s.phase = .waiting) (ht : s.transport = none)
      (hr : s.stopRequested = true) (hp' : s'.phase = .ended) :
      Move s now .reconnect s' [.fired now]
  | lost {i : Input} {s' : Supervisor σ} {why : Option String} {first : Journal}
      (hl : Loses s i why first) (hr' : s'.stopRequested = false) (hp' : s'.phase = .waiting)
      (ht' : s'.transport = none) (hd' : s'.timer.deadline = some (s.timer.delay.alarm now)) :
      Move s now i s' [.armed now (s.timer.delay.alarm now), .event (.disconnected why)]
  | givenUp {i : Input} {s' : Supervisor σ} {why : Option String} {first : Journal}
      (hl : Loses s i why first) (hp' : s'.phase = .ended) :
      Move s now i s' [.event (.disconnected why)]
  | opened {s' : Supervisor σ} (hp : s.phase = .connecting) (hp' : s'.phase = .waiting)
      (ht' : s'.transport.isSome = true) : Move s now .connected s' []
  | still {i : Input} {s' : Supervisor σ} (ho : i.opens = false) (hl : i.isLoss = false)
      (h : Abreast s s') : Move s now i s' []
  /-- The session is about to end, or broke down. -/
  | done {i : Input} {s' : Supervisor σ} (ho : i.opens = false) (hl : i.isLoss = false)
      (hs : s'.phase ≠ .spawned) (ha : ¬ s'.Awaits) : Move s now i s' []

end Retry

theorem Plays.crashed_or_abreast {out : Surface σ} {s s' : Supervisor σ} (h : Plays out s s') :
    s'.phase = .crashed ∨ Abreast s s' := by
  cases h with
  | well h => exact .inr h.abreast
  | crash | breakdown => exact .inl rfl

namespace Supervisor

variable {out : Surface σ} {s s' : Supervisor σ} {now : Nat} {i : Input} {told : Journal}

theorem Tells.retries (h : Tells s s' told) :
    s'.journal.retries = told.retries ++ s.journal.retries := by
  rw [← Journal.retries_milestones, h.milestones, Journal.retries_append,
    Journal.retries_milestones]

/-- Frames and notices have nothing to do with attempts. -/
theorem retries_of_answers {answers : List Event} (dropped : List Nat)
    (ha : ∀ e ∈ answers, e.isAnswer = true) :
    Journal.retries (dropped.map .transportDropped ++ answers.reverse.map .event) = [] := by
  apply List.filter_eq_nil_iff.mpr
  intro e he
  rcases List.mem_append.mp he with he | he
  · obtain ⟨attempt, _, rfl⟩ := List.mem_map.mp he
    nofun
  · obtain ⟨event, hevent, rfl⟩ := List.mem_map.mp he
    have hanswer := ha event (List.mem_reverse.mp hevent)
    cases event with
    | codecChanged | codecUnsupported | metadata => nofun
    | _ => cases hanswer

theorem retries_of_plays (h : Plays out s s') : s'.journal.retries = s.journal.retries := by
  obtain ⟨answers, ha, dropped, htells⟩ := Tells.plays h
  rw [htells.retries, retries_of_answers dropped fun e he => (ha e he).1]
  rfl

theorem Loses.retries {why : Option String} {first : Journal} (h : Loses s i why first) :
    first.retries = [] := by
  cases h <;> rfl

theorem Loses.awaits {why : Option String} {first : Journal} (h : Loses s i why first) :
    s.Awaits := by
  cases h with
  | failed _ hp => exact .inl hp
  | closed hp | broken _ hp => exact .inr hp

@[simp] theorem dropTransport_timer (s : Supervisor σ) : s.dropTransport.timer = s.timer := by
  unfold dropTransport
  split <;> rfl

/-- A session that waits after a loss was not stopped, and has its timer set. -/
theorem lose_of_waiting {why : Option Fault} (h : (s.lose out now why).phase = .waiting) :
    (s.lose out now why).stopRequested = false ∧ (s.lose out now why).transport = none ∧
      (s.lose out now why).timer.deadline = some (s.timer.delay.alarm now) := by
  unfold lose at h ⊢
  simp only at h ⊢
  split at h
  · simp [finish, note] at h
  · rename_i hhalted
    rw [if_neg hhalted]
    refine ⟨?_, by simp [emit, note], by simp [emit, note, ReconnectTimer.arm]⟩
    have hrunning := eq_false_of_ne_true hhalted
    unfold halted at hrunning
    simpa [emit, note] using (Bool.or_eq_false_iff.mp hrunning).1

theorem Loses.waiting {why : Option String} {first : Journal} (h : Loses s i why first)
    (hp : (s.handle out now i).phase = .waiting) :
    (s.handle out now i).stopRequested = false ∧ (s.handle out now i).transport = none ∧
      (s.handle out now i).timer.deadline = some (s.timer.delay.alarm now) := by
  cases h <;> exact lose_of_waiting hp

theorem retries_connect (out : Surface σ) (now : Nat) (hb : s.Bare)
    (hs : s.state = .disconnected ∨ s.state = .reconnectPending) :
    (s.stopRequested = true ∧ (s.connect out now).phase = .ended ∧
      (s.connect out now).journal.retries = s.journal.retries) ∨
    (s.stopRequested = false ∧ (s.connect out now).phase = .connecting ∧
      (s.connect out now).journal.retries =
        .connecting (s.totals.connects + 1) now :: s.journal.retries) := by
  have hterminal : s.state.terminal = false := by
    rcases hs with hs | hs <;> simp [SessionState.terminal, hs]
  -- Short of a terminal state it is only a stop that keeps a session from trying.
  have hhalted : s.halted = s.stopRequested := by simp [halted, hterminal]
  cases hr : s.stopRequested with
  | true =>
    have hne : s.state ≠ .destroyed := by rcases hs with hs | hs <;> simp [hs]
    obtain ⟨htold, hphase⟩ := Passes.connect_of_halted out now hb hne (hhalted.trans hr)
    exact .inl ⟨rfl, hphase, htold.retries⟩
  | false =>
    have hne : s.state ≠ .connecting := by rcases hs with hs | hs <;> simp [hs]
    obtain ⟨htold, hphase⟩ := Passes.connect_of_running out now hne (hhalted.trans hr)
    exact .inr ⟨rfl, hphase, htold.retries⟩

theorem move_of_passage {phase : Phase} (hpasses : Passes s (s.handle out now i) told)
    (hphase : (s.handle out now i).phase = phase) (ho : i.opens = false)
    (h : Passage s now i phase told) :
    ∃ retries, Move s now i (s.handle out now i) retries ∧
      (s.handle out now i).journal.retries = retries ++ s.journal.retries := by
  have hretries := hpasses.retries
  cases h with
  | begin | reconnect => cases ho
  | opened hp =>
    have hopen : (s.handle out now .connected).transport.isSome = true := by
      simp [handle, opened, emit, note]
    exact ⟨[], .opened hp hphase hopen, hretries⟩
  | lost hl =>
    obtain ⟨hr', ht', hd'⟩ := hl.waiting hphase
    rw [Journal.retries_append, hl.retries] at hretries
    exact ⟨_, .lost hl hr' hphase ht' hd', hretries⟩
  | closing hp => exact ⟨[], .done rfl rfl (by simp [hphase]) (by simp [Awaits, hphase]), hretries⟩
  | retired hr =>
    have hended : (s.handle out now i).phase ≠ .spawned := by simp [hphase]
    have hover : ¬ (s.handle out now i).Awaits := by simp [Awaits, hphase]
    rw [Journal.retries_append] at hretries
    cases hr with
    | unstarted | overdue => cases ho
    | abandoned | idle | closed => exact ⟨[], .done rfl rfl hended hover, hretries⟩
    | @lost _ why first hl =>
      have hfirst : Journal.retries (.event (.disconnected why) :: first) =
          [.event (.disconnected why)] := congrArg (_ :: ·) hl.retries
      rw [hfirst] at hretries
      exact ⟨_, .givenUp hl hphase, hretries⟩
  | broken =>
    have hdropped : Journal.retries (s.transport.toList.map .transportDropped) = [] := by
      cases s.transport <;> rfl
    rw [hdropped] at hretries
    exact ⟨[], .done rfl rfl (by simp [hphase]) (by simp [Awaits, hphase]), hretries⟩

/-- What is handled starts an attempt, is a loss, or has nothing to do with attempts. -/
theorem handle_moves (out : Surface σ) (h : Sound s) (hi : Sound.Comes s now i) :
    ∃ retries, Move s now i (s.handle out now i) retries ∧
      (s.handle out now i).journal.retries = retries ++ s.journal.retries := by
  cases ho : i.opens with
  | true =>
    cases hi with
    | begin hp hs hb =>
      rcases retries_connect out now hb (.inl (h.of_spawned hp).1) with
        ⟨hr, hphase, hretries⟩ | ⟨hr, hphase, hretries⟩
      · exact ⟨[], .unstarted hr hphase, hretries⟩
      · exact ⟨_, .start hp hr hphase, hretries⟩
    | reconnect hp hs ht hq =>
      -- The timer is put away before the attempt, so it connects as a session with none.
      let fired : Supervisor σ := { s with timer := s.timer.cancel }.note (.fired now)
      have hbare : fired.Bare := ⟨ht, hq, rfl⟩
      have hfired : fired.journal.retries = .fired now :: s.journal.retries := rfl
      rcases retries_connect out now hbare (.inr (h.of_lost hp ht).1) with
        ⟨hr, hphase, hretries⟩ | ⟨hr, hphase, hretries⟩ <;> rw [hfired] at hretries
      · exact ⟨_, .tooLate hp ht hr hphase, hretries⟩
      · exact ⟨_, .again hp ht hr hphase, hretries⟩
    | _ => cases ho
  | false =>
    have hhandled : Handled out s now i (s.handle out now i) := handled h hi
    generalize hs' : s.handle out now i = s' at hhandled
    cases hhandled with
    | frame hp _ hplays | notice hp _ hplays =>
      refine ⟨[], ?_, retries_of_plays hplays⟩
      rcases hplays.crashed_or_abreast with hphase | habreast
      · exact .done ho rfl (by simp [hphase]) (by simp [Awaits, hphase])
      · exact .still ho rfl habreast
    | passage hpasses hpassage =>
      subst hs'
      exact move_of_passage hpasses rfl ho hpassage

end Supervisor

theorem Sound.stopped_of_ended {s : Supervisor σ} (h : Sound s) (hp : s.phase = .ended) :
    s.stopRequested = true := by
  cases h with
  | ended _ hr => exact hr
  | _ => simp_all

theorem Sound.of_armed {s : Supervisor σ} (h : Sound s) (hd : s.timer.armed = true) :
    s.phase = .waiting ∧ s.transport = none ∧ s.state = .reconnectPending := by
  unfold ReconnectTimer.armed at hd
  cases h with
  | pausing hp hs ht => exact ⟨hp, ht, hs⟩
  | spawned _ _ hb | connecting _ _ hb | ended _ _ _ hb | crashed _ _ hb => simp [hb.disarmed] at hd
  | playing _ _ _ _ hd' | closing _ _ _ _ _ hd' => simp [hd'] at hd

namespace Retry

namespace Move

variable {s s' : Supervisor σ} {now : Nat} {i : Input} {told : Journal}

/-- An attempt is made by the start and by the timer, and not after a stop. -/
theorem attempts (h : Move s now i s' told) :
    told.attempts = if i.opens = true ∧ s.stopRequested = false then [now] else [] := by
  cases h with
  | start _ hr | again _ _ hr =>
    rw [if_pos ⟨rfl, hr⟩]
    rfl
  | unstarted hr | tooLate _ _ hr =>
    rw [if_neg (by simp [hr])]
    rfl
  | lost hl | givenUp hl => cases hl <;> rfl
  | opened => rfl
  | still ho | done ho =>
    rw [if_neg (by simp [ho])]
    rfl

/-- The timer is set by a loss, unless the session is stopped by then. -/
theorem arms (h : Move s now i s' told) (hs' : Sound s') :
    told.arms = if i.isLoss = true ∧ s'.stopRequested = false
      then [(now, s.timer.delay.alarm now)] else [] := by
  cases h with
  | lost hl hr' =>
    rw [if_pos ⟨hl.isLoss, hr'⟩]
    rfl
  | givenUp _ hp' =>
    rw [if_neg (by simp [hs'.stopped_of_ended hp'])]
    rfl
  | still _ hl | done _ hl =>
    rw [if_neg (by simp [hl])]
    rfl
  | _ => rfl

end Move

end Retry

end LivePlayback
