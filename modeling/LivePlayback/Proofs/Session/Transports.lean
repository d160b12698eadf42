import LivePlayback.Proofs.Session.Frames
import LivePlayback.Proofs.Session.Perseverance
import LivePlayback.Rehearsal.Stage

/-!
# The life of a transport

A session has one transport at a time. It drops each before it connects again, asks it for nothing
once it has ended, and closes it once at most, when it was stopped.
-/

namespace LivePlayback
set_option autoImplicit false

open Supervisor

variable {σ : Type}

namespace Entry

def onTransports : Entry → Bool
  | .connecting _ _ | .opened _ | .closing _ | .transportDropped _ => true
  | _ => false

/-- The transport that an entry is about. -/
def transport? : Entry → Option Nat
  | .opened n | .closing n | .transportDropped n => some n
  | _ => none

theorem milestone_of_onTransports {e : Entry} (h : e.onTransports = true) :
    e.milestone = true := by
  cases e with
  | connecting | opened | closing | transportDropped => rfl
  | _ => cases h

end Entry

namespace Journal

def transports (j : Journal) : Journal := j.filter Entry.onTransports

/-- A transport was opened and not dropped. -/
def Undropped (j : Journal) (n : Nat) : Prop :=
  Entry.opened n ∈ j ∧ Entry.transportDropped n ∉ j

/-- No transport is left. -/
def Detached (j : Journal) : Prop := ∀ n, ¬ j.Undropped n

theorem transports_append (later j : Journal) :
    transports (later ++ j) = later.transports ++ j.transports :=
  List.filter_append ..

theorem transports_milestones (j : Journal) : j.milestones.transports = j.transports := by
  unfold transports milestones
  rw [List.filter_filter]
  congr 1
  funext e
  cases he : e.onTransports with
  | true => simp [Entry.milestone_of_onTransports he]
  | false => rfl

theorem mem_transports_iff {e : Entry} (he : e.onTransports = true) (j : Journal) :
    e ∈ j.transports ↔ e ∈ j := by
  simp [transports, he]

theorem undropped_transports_iff (j : Journal) (n : Nat) :
    j.transports.Undropped n ↔ j.Undropped n := by
  unfold Undropped
  rw [mem_transports_iff rfl, mem_transports_iff rfl]

theorem undropped_cons_iff {e : Entry} {j : Journal} {n : Nat} (ho : e ≠ .opened n)
    (hd : e ≠ .transportDropped n) : Undropped (e :: j) n ↔ j.Undropped n := by
  unfold Undropped
  rw [List.mem_cons, List.mem_cons, or_iff_right ho.symm, or_iff_right hd.symm]

theorem transports_eq_of_split {j later earlier : Journal} {e : Entry}
    (he : e.onTransports = true) (hj : j = later ++ e :: earlier) :
    j.transports = later.transports ++ e :: earlier.transports := by
  rw [hj, transports_append, transports, transports, List.filter_cons_of_pos he]
  rfl

end Journal

/-! ## What a session has in its hands -/

/-- What a session has of its newest attempt. -/
inductive Custody where
  | vacant
  | attempting
  | held
  | closing
  deriving DecidableEq

namespace Custody

def holds : Custody → Bool
  | .held | .closing => true
  | .vacant | .attempting => false

/-- What a session tells of its transports in so many attempts, newest first. -/
inductive Told : Nat → Custody → Journal → Prop where
  | unstarted : Told 0 .vacant []
  | connecting {n : Nat} {c : Custody} {told : Journal} (h : Told n c told) (hc : c.holds = false)
      (now : Nat) : Told (n + 1) .attempting (.connecting (n + 1) now :: told)
  | opened {n : Nat} {told : Journal} (h : Told n .attempting told) :
      Told n .held (.opened n :: told)
  | closing {n : Nat} {told : Journal} (h : Told n .held told) :
      Told n .closing (.closing n :: told)
  | dropped {n : Nat} {c : Custody} {told : Journal} (h : Told n c told) (hc : c.holds = true) :
      Told n .vacant (.transportDropped n :: told)

namespace Told

variable {n k : Nat} {c : Custody} {told later : Journal} {e : Entry}

theorem rest (h : Told n c (e :: told)) : ∃ n' c', Told n' c' told := by
  cases h with
  | connecting h | opened h | closing h | dropped h => exact ⟨_, _, h⟩

theorem suffix (h : Told n c (later ++ told)) : ∃ n' c', Told n' c' told := by
  induction later generalizing n c with
  | nil => exact ⟨n, c, h⟩
  | cons e later ih =>
    obtain ⟨n', c', h'⟩ := h.rest
    exact ih h'

/-- An attempt that is under way has no transport yet. -/
theorem number_le (h : Told n c told) (he : e ∈ told) (hk : e.transport? = some k) :
    k ≤ n ∧ (c = .attempting → k < n) := by
  induction h with
  | unstarted => cases he
  | connecting _ _ _ ih =>
    rcases List.mem_cons.mp he with rfl | he
    · cases hk
    · have hle := (ih he).1
      omega
  | opened _ ih | closing _ ih | dropped _ _ ih =>
    rcases List.mem_cons.mp he with rfl | he
    · cases hk
      exact ⟨Nat.le_refl _, nofun⟩
    · exact ⟨(ih he).1, nofun⟩

theorem not_mem_of_attempting (h : Told n .attempting told) (hk : e.transport? = some n) :
    e ∉ told :=
  fun he => Nat.lt_irrefl n ((h.number_le he hk).2 rfl)

theorem undropped_iff (h : Told n c told) : told.Undropped k ↔ c.holds = true ∧ k = n := by
  induction h with
  | unstarted => simp [Journal.Undropped, holds]
  | connecting _ hc _ ih =>
    rw [Journal.undropped_cons_iff (by simp) (by simp), ih, hc]
    simp [holds]
  | @opened n told h ih =>
    by_cases hk : k = n
    · subst hk
      have hfresh : Entry.transportDropped k ∉ told := h.not_mem_of_attempting rfl
      simp [Journal.Undropped, holds, hfresh]
    · rw [Journal.undropped_cons_iff (by simp [Ne.symm hk]) (by simp), ih]
      simp [holds, hk]
  | closing _ ih =>
    rw [Journal.undropped_cons_iff (by simp) (by simp), ih]
    simp [holds]
  | @dropped n c told h hc ih =>
    by_cases hk : k = n
    · simp [Journal.Undropped, holds, hk]
    · rw [Journal.undropped_cons_iff (by simp) (by simp [Ne.symm hk]), ih]
      simp [holds, hk]

theorem detached (h : Told n c told) (hc : c.holds = false) : told.Detached := by
  intro k hk
  have hholds := (h.undropped_iff.mp hk).1
  simp [hc] at hholds

theorem not_closing_of_held (h : Told n .held told) : Entry.closing n ∉ told := by
  cases h with
  | opened h =>
    have hfresh : Entry.closing n ∉ _ := h.not_mem_of_attempting rfl
    simpa using hfresh

end Told

end Custody

theorem Sound.transport_of_over {s : Supervisor σ} (h : Sound s) (ho : s.isOver = true) :
    s.transport = none := by
  have hp : s.phase = .ended ∨ s.phase = .crashed := by simpa [isOver] using ho
  cases h with
  | ended _ _ _ hb | crashed _ _ hb => exact hb.transport
  | _ => simp_all

/-! ## Handlers -/

/-- With this a transport is gone, or there is none. -/
def Input.ends : Input → Bool
  | .connectFailed _ | .received .closed | .received (.failed _) | .closed | .broken => true
  | _ => false

theorem PlayAct.connects {out : Surface σ} {s s' : Supervisor σ} (h : PlayAct out s s') :
    s'.totals.connects = s.totals.connects := by
  have hannounced {s₁ : Supervisor σ} {f : ByteArray} {codecs : Codecs}
      (hears : Hears out ((s.register f).announce out codecs) s₁) :
      s₁.totals.connects = s.totals.connects := by
    have hasked : ((s.register f).announce out codecs).totals = (s.register f).totals :=
      (Stays.announce out codecs _).totals
    rw [(Nears.hears_stays hears).totals, hasked]
    rfl
  cases h with
  | hear hears => rw [(Nears.hears_stays hears).totals]
  | install _ _ hears | decline _ _ hears | falter _ _ hears => exact (hannounced hears :)
  | _ => rfl

theorem PlayActs.connects {out : Surface σ} {s s' : Supervisor σ} (h : PlayActs out s s') :
    s'.totals.connects = s.totals.connects := by
  induction h with
  | refl => rfl
  | tail _ act ih => exact act.connects.trans ih

namespace Supervisor

variable {out : Surface σ} {s s' : Supervisor σ} {now : Nat} {i : Input} {told : Journal}

theorem Tells.transports (h : Tells s s' told) :
    s'.journal.transports = told.transports ++ s.journal.transports := by
  rw [← Journal.transports_milestones, h.milestones, Journal.transports_append,
    Journal.transports_milestones]

theorem transports_of_answers (answers : List Event) :
    Journal.transports (answers.reverse.map .event) = [] := by
  apply List.filter_eq_nil_iff.mpr
  intro e he
  obtain ⟨event, _, rfl⟩ := List.mem_map.mp he
  nofun

theorem transports_of_dropped (dropped : List Nat) :
    Journal.transports (dropped.map .transportDropped) = dropped.map .transportDropped := by
  apply List.filter_eq_self.mpr
  intro e he
  obtain ⟨n, _, rfl⟩ := List.mem_map.mp he
  rfl

/-- Frames and notices leave a transport alone, unless the session breaks down. -/
theorem transports_of_plays (h : Plays out s s') : s'.totals.connects = s.totals.connects ∧
    (Abreast s s' ∧ s'.journal.transports = s.journal.transports ∨
      s'.phase = .crashed ∧ s'.journal.transports =
        s.transport.toList.map .transportDropped ++ s.journal.transports) := by
  have hacts {s₁ : Supervisor σ} (h : PlayActs out s s₁) : s₁.transport = s.transport ∧
      s₁.journal.transports = s.journal.transports := by
    obtain ⟨answers, _, htells⟩ := Tells.playActs h
    rw [htells.transports, transports_of_answers]
    exact ⟨h.abreast.transport, rfl⟩
  have hcrash (s₁ : Supervisor σ) : (s₁.crash out).journal.transports =
      s₁.transport.toList.map .transportDropped ++ s₁.journal.transports := by
    rw [(Tells.crash s₁).transports, transports_of_dropped]
  cases h with
  | well h => exact ⟨h.connects, .inl ⟨h.abreast, (hacts h).2⟩⟩
  | @crash s₁ h =>
    obtain ⟨ht, hj⟩ := hacts h
    refine ⟨?_, .inr ⟨rfl, by rw [hcrash, ht, hj]⟩⟩
    rw [crash_totals]
    exact h.connects
  | @breakdown s₁ s₂ h hb =>
    obtain ⟨ht, hj⟩ := hacts h
    have hbroken : s₂.totals = s₁.totals ∧ s₂.transport = s₁.transport := by
      cases hb
      exact ⟨rfl, rfl⟩
    have hj₂ : s₂.journal.transports = s₁.journal.transports := (Tells.breaks hb).transports
    refine ⟨?_, .inr ⟨rfl, by rw [hcrash, hbroken.2, ht, hj₂, hj]⟩⟩
    rw [crash_totals, hbroken.1]
    exact h.connects

section Projections

variable (out : Surface σ) (now : Nat) (s : Supervisor σ)

@[simp] theorem finish_transport : (s.finish out).transport = s.transport := by
  unfold finish
  simp only
  split <;> simp [emit, note]

@[simp] theorem teardown_transport : (s.teardown out now).transport = s.transport := by
  unfold teardown
  simp only
  split <;> simp [note]

@[simp] theorem connect_transport : (s.connect out now).transport = s.transport := by
  unfold connect
  split <;> simp [note]

theorem stop_transport : (s.handle out now .stop).transport = s.transport := by
  rw [handle, teardown_transport, abandonConnect]
  split <;> rfl

@[simp] theorem lose_transport (why : Option Fault) : (s.lose out now why).transport = none := by
  unfold lose
  simp only
  split <;> simp [emit, note]

@[simp] theorem crash_transport : (s.crash out).transport = none := by
  simp [crash]

end Projections

/-- An input leaves the transport in place, ends it, or brings one. -/
theorem handle_transport (out : Surface σ) (h : Sound s) (hi : Sound.Comes s now i) :
    (s.handle out now i).transport = none ∨
      i.ends = false ∧ (s.handle out now i).transport = s.transport ∨
      i = .connected ∧ (s.handle out now i).transport = some s.totals.connects := by
  have hplays {s' : Supervisor σ} (h : Plays out s s') :
      s'.transport = none ∨ s'.transport = s.transport := by
    cases h with
    | well h => exact .inr h.abreast.transport
    | crash | breakdown => exact .inl (crash_transport out _)
  cases hi with
  | begin => exact .inr (.inl ⟨rfl, connect_transport out now s⟩)
  | stop => exact .inr (.inl ⟨rfl, stop_transport out now s⟩)
  | reconnect => exact .inr (.inl ⟨rfl, connect_transport out now _⟩)
  | notice hp hn =>
    rw [handle, hn]
    exact (hplays (Plays.notice hp hn (h.ready hp))).imp id fun ht => .inl ⟨rfl, ht⟩
  | connected => exact .inr (.inr ⟨rfl, by simp [handle, opened, emit, note]⟩)
  | connectFailed => exact .inl (lose_transport out now _ _)
  | received r hp _ _ ht =>
    cases r with
    | frame f =>
      rw [handle]
      cases hr : s.halted with
      | true =>
        rw [handleFrame, if_pos hr]
        exact .inr (.inl ⟨rfl, rfl⟩)
      | false =>
        obtain ⟨_, hq, _⟩ := h.of_open hp ht
        exact (hplays (Plays.frame f ⟨hp, ht, hr⟩ hq)).imp id fun ht => .inl ⟨rfl, ht⟩
    | closed | failed => exact .inl (lose_transport out now _ _)
  | closed => exact .inl (by simp [handle, endClosing])
  | broken => exact .inl (crash_transport out s)

namespace Loses

variable {s : Supervisor σ} {i : Input} {why : Option String} {first : Journal}

theorem transports (h : Loses s i why first) (hs : Sound s) :
    first.transports = s.transport.toList.map .transportDropped := by
  cases h with
  | failed _ hp =>
    rw [(hs.of_connecting hp).2.transport]
    rfl
  | closed _ ht | broken _ _ ht =>
    rw [ht]
    rfl

end Loses

/-- What a session that retires tells of transports is that the one it has is dropped. -/
theorem Retires.transports {s : Supervisor σ} {now : Nat} {i : Input} {first : Journal}
    (h : Retires s now i first) (hs : Sound s) :
    first.transports = s.transport.toList.map .transportDropped := by
  cases h with
  | unstarted hp =>
    rw [(hs.of_spawned hp).2.transport]
    rfl
  | abandoned hp =>
    rw [(hs.of_connecting hp).2.transport]
    rfl
  | overdue _ ht | idle _ ht | closed _ ht =>
    rw [ht]
    rfl
  | lost hl => exact hl.transports hs

/-! ## Sessions -/

/-- A session has in its hands what it told of. -/
structure Keeps (s : Supervisor σ) (c : Custody) : Prop where
  told : c.Told s.totals.connects s.journal.transports
  transport : s.transport = if c.holds then some s.totals.connects else none
  attempting : s.phase = .connecting → c = .attempting
  closing : c = .closing → ∃ deadline, s.phase = .closing deadline

namespace Keeps

variable {out : Surface σ} {s s' : Supervisor σ} {c : Custody} {now n : Nat} {i : Input}

theorem holds_iff (h : Keeps s c) : c.holds = true ↔ s.transport = some s.totals.connects := by
  rw [h.transport]
  split <;> simp_all

theorem transport_eq (h : Keeps s c) (ht : s.transport = some n) : n = s.totals.connects := by
  have htransport := h.transport
  rw [ht] at htransport
  split at htransport <;> simp_all

theorem undropped_iff (h : Keeps s c) : s.journal.Undropped n ↔ s.transport = some n := by
  rw [← Journal.undropped_transports_iff, h.told.undropped_iff]
  constructor
  · rintro ⟨hc, rfl⟩
    exact h.holds_iff.mp hc
  · intro ht
    obtain rfl := h.transport_eq ht
    exact ⟨h.holds_iff.mpr ht, rfl⟩

theorem held (h : Keeps s c) (hp : s.phase = .waiting) (ht : s.transport = some n) :
    c = .held := by
  obtain rfl := h.transport_eq ht
  have hholds : c.holds = true := h.holds_iff.mpr ht
  cases c with
  | held => rfl
  | closing =>
    obtain ⟨deadline, hp'⟩ := h.closing rfl
    simp [hp] at hp'
  | vacant | attempting => cases hholds

theorem congr (h : Keeps s c) (ha : Abreast s s') (hn : s'.totals.connects = s.totals.connects)
    (hj : s'.journal.transports = s.journal.transports) : Keeps s' c := by
  refine ⟨hn ▸ hj ▸ h.told, ?_, fun hp => h.attempting (ha.phase ▸ hp), fun hc => ?_⟩
  · rw [ha.transport, hn]
    exact h.transport
  · rw [ha.phase]
    exact h.closing hc

theorem idles (h : Keeps s c) (hi : Idles s s') : Keeps s' c :=
  h.congr hi.toAbreast (by rw [hi.passes.totals_eq rfl]) hi.passes.transports

/-- What was held is let go. -/
theorem dropped (h : Keeps s c) (ht : s'.transport = none) (hp : s'.phase ≠ .connecting)
    (hn : s'.totals.connects = s.totals.connects)
    (hj : s'.journal.transports =
      s.transport.toList.map .transportDropped ++ s.journal.transports) :
    ∃ c', Keeps s' c' := by
  have htransport := h.transport
  cases hc : c.holds with
  | true =>
    rw [h.holds_iff.mp hc] at hj
    refine ⟨.vacant, ?_, ht, fun hp' => absurd hp' hp, nofun⟩
    rw [hj, hn]
    exact .dropped h.told hc
  | false =>
    rw [hc] at htransport
    rw [htransport] at hj
    refine ⟨c, ?_, by rw [hc]; exact ht, fun hp' => absurd hp' hp, ?_⟩
    · rw [hj, hn]
      exact h.told
    · rintro rfl
      cases hc

theorem plays (h : Keeps s c) (hs' : Sound s') (hplays : Plays out s s') : ∃ c', Keeps s' c' := by
  obtain ⟨hn, ⟨habreast, hj⟩ | ⟨hphase, hj⟩⟩ := transports_of_plays hplays
  · exact ⟨c, h.congr habreast hn hj⟩
  · exact h.dropped (hs'.transport_of_over (by simp [isOver, hphase])) (by simp [hphase]) hn hj

/-- Nothing is held while an attempt is made. -/
theorem connecting (h : Keeps s c) (ht : s.transport = none) (hs' : Sound s')
    (hp' : s'.phase = .connecting) (hn : s'.totals.connects = s.totals.connects + 1)
    (hj : s'.journal.transports =
      .connecting (s.totals.connects + 1) now :: s.journal.transports) :
    Keeps s' .attempting := by
  have hc : c.holds = false := by
    rw [← Bool.not_eq_true, h.holds_iff, ht]
    nofun
  refine ⟨?_, (hs'.of_connecting hp').2.transport, fun _ => rfl, nofun⟩
  rw [hn, hj]
  exact .connecting h.told hc now

theorem passage {told : Journal} (h : Keeps s c) (hs : Sound s) (hs' : Sound (s.handle out now i))
    (hpasses : Passes s (s.handle out now i) told)
    (hpassage : Passage s now i (s.handle out now i).phase told) :
    ∃ c', Keeps (s.handle out now i) c' := by
  have hj := hpasses.transports
  have hn : (s.handle out now i).totals.connects =
      s.totals.connects + told.transports.countP Entry.isConnecting := by
    rw [hpasses.totals, Journal.transports, Journal.countP_filter]
    intro e he
    cases e with
    | connecting => rfl
    | _ => cases he
  have hdropped (hp : (s.handle out now i).phase ≠ .connecting)
      (ht : (s.handle out now i).transport = none)
      (htold : told.transports = s.transport.toList.map .transportDropped) :
      ∃ c', Keeps (s.handle out now i) c' := by
    refine h.dropped ht hp ?_ (htold ▸ hj)
    rw [hn, htold, List.countP_eq_zero.mpr]
    · rfl
    · intro e he
      obtain ⟨_, _, rfl⟩ := List.mem_map.mp he
      nofun
  generalize hphase : (s.handle out now i).phase = phase at hpassage
  cases hpassage with
  | begin hp => exact ⟨_, h.connecting (hs.of_spawned hp).2.transport hs' hphase hn hj⟩
  | reconnect _ ht => exact ⟨_, h.connecting ht hs' hphase hn hj⟩
  | opened hp =>
    obtain rfl := h.attempting hp
    refine ⟨.held, ?_, ?_, by simp [hphase], nofun⟩
    · rw [hn, hj]
      exact .opened h.told
    · have hopened : (s.handle out now .connected).transport = some s.totals.connects := by
        simp [handle, opened, emit, note]
      rw [hn]
      exact hopened
  | lost hl =>
    refine hdropped (by simp [hphase]) (hl.waiting hphase).2.1 ?_
    rw [Journal.transports_append, hl.transports hs]
    rfl
  | @closing attempt hp ht =>
    obtain rfl := h.held hp ht
    obtain rfl := h.transport_eq ht
    refine ⟨.closing, ?_, ?_, by simp [hphase], fun _ => ⟨_, hphase⟩⟩
    · rw [hn, hj]
      exact .closing h.told
    · rw [hn]
      exact (stop_transport out now s).trans ht
  | retired hr =>
    refine hdropped (by simp [hphase]) (hs'.transport_of_over (by simp [isOver, hphase])) ?_
    rw [Journal.transports_append, hr.transports hs]
    rfl
  | broken =>
    refine hdropped (by simp [hphase]) (crash_transport out s) (transports_of_dropped _)

end Keeps

/-- Only a stop has a transport closed. -/
theorem Handled.closing_of_mem {out : Surface σ} {s s' : Supervisor σ} {now n : Nat} {i : Input}
    (h : Handled out s now i s') (hc : .closing n ∈ s'.journal) :
    .closing n ∈ s.journal ∨ i = .stop := by
  rw [← Journal.mem_transports_iff rfl] at hc ⊢
  have hdropped (dropped : List Nat) : .closing n ∉ dropped.map Entry.transportDropped := by simp
  cases h with
  | frame _ _ hplays | notice _ _ hplays =>
    obtain ⟨_, ⟨_, hj⟩ | ⟨_, hj⟩⟩ := transports_of_plays hplays
    · exact .inl (hj ▸ hc)
    · rw [hj] at hc
      exact .inl ((List.mem_append.mp hc).resolve_left (hdropped _))
  | @passage _ _ told hpasses hpassage =>
    rw [hpasses.transports, List.mem_append] at hc
    refine hc.symm.imp id fun hc => ?_
    replace hc : .closing n ∈ told := (Journal.mem_transports_iff rfl _).mp hc
    generalize s'.phase = phase at hpassage
    cases hpassage with
    | closing => rfl
    | lost hl => cases hl <;> simp at hc
    | retired hr =>
      cases hr with
      | abandoned | idle => rfl
      | lost hl => cases hl <;> simp [Passes.farewell] at hc
      | _ => simp [Passes.farewell] at hc
    | broken => exact absurd hc (hdropped _)
    | _ => simp at hc

end Supervisor

section

variable {out : Surface σ} {m m' : Moment σ}

theorem Reachable.keepsTransport (h : Reachable out m) : ∃ c, m.supervisor.Keeps c := by
  induction h with
  | spawn => exact ⟨.vacant, .unstarted, rfl, nofun, nofun⟩
  | @step m m' hm step ih =>
    obtain ⟨c, hkeeps⟩ := ih
    have hsound : Sound m'.supervisor := (hm.step step).sound
    cases step.takes hm.sound with
    | idle hi => exact ⟨c, hkeeps.idles hi⟩
    | @handle i stop hi hs hh =>
      replace hkeeps : (m.supervisor.stopIf stop).Keeps c := hkeeps.idles (.stopIf _ stop)
      generalize hs' : (m.handle out i stop).supervisor = s' at hh hsound
      cases hh with
      | frame _ _ hplays | notice _ _ hplays => exact hkeeps.plays hsound hplays
      | passage hpasses hpassage =>
        subst hs'
        exact hkeeps.passage hs hsound hpasses hpassage

theorem Step.mem_transports {e : Entry} (hm : Reachable out m) (step : Step out m m')
    (he : e.onTransports = true) (h : e ∈ m.journal) : e ∈ m'.journal := by
  obtain ⟨told, htells⟩ := (step.takes hm.sound).tells
  have hj : m'.journal.transports = told.transports ++ m.journal.transports := htells.transports
  rw [← Journal.mem_transports_iff he] at h ⊢
  rw [hj]
  exact List.mem_append_right _ h

/-- Whose close was called, belongs to a session that was stopped before. -/
theorem Step.closing_of_mem {n : Nat} (hm : Reachable out m) (step : Step out m m')
    (hc : .closing n ∈ m'.journal) :
    .closing n ∈ m.journal ∨ m.supervisor.stopRequested = true := by
  cases step.takes hm.sound with
  | idle hi =>
    have hj : m'.journal.transports = m.journal.transports := hi.passes.transports
    rw [← Journal.mem_transports_iff rfl, hj, Journal.mem_transports_iff rfl] at hc
    exact .inl hc
  | handle stop hi _ hh =>
    have hj : (m.supervisor.stopIf stop).journal = m.journal := by cases stop <;> rfl
    rcases hh.closing_of_mem hc with hc | rfl
    · exact .inl (hj ▸ hc)
    · cases hi with
      | stop _ hr => exact .inr hr

theorem Reachable.stopped_of_closing {n : Nat} (h : Reachable out m) (hc : .closing n ∈ m.journal) :
    m.supervisor.stopRequested = true := by
  induction h with
  | spawn => cases hc
  | step hm step ih =>
    have hr := (step.closing_of_mem hm hc).elim ih id
    exact (step.winds hm hr).1.stopped hr

theorem Reachable.detached_of_over (h : Reachable out m) (ho : m.supervisor.isOver = true) :
    m.journal.Detached := by
  obtain ⟨c, hkeeps⟩ := h.keepsTransport
  intro n hn
  have hsome : m.supervisor.transport = some n := hkeeps.undropped_iff.mp hn
  cases (h.sound.transport_of_over ho).symm.trans hsome

end

end LivePlayback
