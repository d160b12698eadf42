import LivePlayback.Proofs.Session.Course
import LivePlayback.Rehearsal.Stage

/-!
# The life of a sink

A sink is created after an announcement, is offered chunks and is released once, and at most one
sink lives at a time. All of this is read off the journal alone: every entry is in order given the
entries before it.
-/

namespace LivePlayback
set_option autoImplicit false

variable {σ : Type}

namespace Entry

def created? : Entry → Option Nat
  | .created g _ => some g
  | _ => none

theorem created?_eq_some {e : Entry} {g : Nat} (h : e.created? = some g) :
    ∃ codecs, e = .created g codecs := by
  cases e with
  | created g' codecs =>
    cases h
    exact ⟨codecs, rfl⟩
  | _ => cases h

def isReleaseOf (g : Nat) : Entry → Bool
  | .released g' => g' == g
  | _ => false

def isAnnouncement : Entry → Bool
  | .asked _ => true
  | _ => false

/-- Entries that neither start nor end the life of a sink. -/
def neutral : Entry → Bool
  | .asked _ | .created _ _ | .released _ => false
  | _ => true

/-- Entries that say nothing about the life of a sink. -/
def unrelated : Entry → Bool
  | .event (.disconnected _) | .event .stopped | .asked _ | .created _ _ | .offered _ _ _
  | .released _ => false
  | _ => true

theorem neutral_of_unrelated {e : Entry} (h : e.unrelated = true) : e.neutral = true := by
  cases e with
  | asked | created | released => cases h
  | _ => rfl

end Entry

namespace Journal

/-- What is read off a journal does not change with entries that it passes over. -/
theorem append_of_passed {α : Sort*} {f : Journal → α} {p : Entry → Bool}
    (hf : ∀ e j, p e = true → f (e :: j) = f j) {entries : Journal}
    (h : ∀ e ∈ entries, p e = true) (j : Journal) : f (entries ++ j) = f j := by
  induction entries with
  | nil => rfl
  | cons e entries ih =>
    rw [List.cons_append, hf _ _ (h e List.mem_cons_self)]
    exact ih fun e he => h e (List.mem_cons_of_mem _ he)

/-- How many announcements were acted on. -/
def announcements (j : Journal) : Nat := j.countP Entry.isAnnouncement

def releases (j : Journal) (g : Nat) : Nat := j.countP (Entry.isReleaseOf g)

theorem releases_eq_zero_iff {j : Journal} {g : Nat} :
    j.releases g = 0 ↔ Entry.released g ∉ j := by
  simp only [releases, List.countP_eq_zero]
  constructor
  · intro h hr
    exact h _ hr (by simp [Entry.isReleaseOf])
  · rintro h e he hr
    cases e with
    | released g' => exact h (by simpa [Entry.isReleaseOf] using (beq_iff_eq.mp hr) ▸ he)
    | _ => cases hr

/-- A sink was created and not released. -/
def Unreleased (j : Journal) (g : Nat) : Prop :=
  (∃ codecs, Entry.created g codecs ∈ j) ∧ Entry.released g ∉ j

/-- No sink lives. -/
def Vacant (j : Journal) : Prop := ∀ g, ¬ j.Unreleased g

theorem unreleased_of_cons {e : Entry} {j : Journal} {g : Nat} (h : Unreleased (e :: j) g) :
    (∃ codecs, e = .created g codecs) ∨ j.Unreleased g := by
  obtain ⟨⟨codecs, hc⟩, hr⟩ := h
  rw [List.mem_cons, not_or] at hr
  rcases List.mem_cons.mp hc with rfl | hc
  · exact .inl ⟨codecs, rfl⟩
  · exact .inr ⟨⟨codecs, hc⟩, hr.2⟩

theorem unreleased_cons_iff {e : Entry} {j : Journal} {g : Nat}
    (hc : ∀ codecs, e ≠ .created g codecs) (hr : e ≠ .released g) :
    Unreleased (e :: j) g ↔ j.Unreleased g := by
  refine ⟨fun h => (unreleased_of_cons h).resolve_left fun ⟨codecs, he⟩ => hc codecs he, ?_⟩
  rintro ⟨⟨codecs, hc'⟩, hr'⟩
  refine ⟨⟨codecs, List.mem_cons_of_mem _ hc'⟩, ?_⟩
  rw [List.mem_cons, not_or]
  exact ⟨hr.symm, hr'⟩

end Journal

/-- An entry is in order, given what was noted before it. -/
def Entry.Fits (earlier : Journal) : Entry → Prop
  | .created g _ => g = earlier.announcements ∧ earlier.Vacant ∧
      ∀ g' codecs, Entry.created g' codecs ∈ earlier → g' < g
  | .offered g _ _ | .released g => earlier.Unreleased g
  | .asked _ | .event (.disconnected _) | .event .stopped => earlier.Vacant
  | _ => True

theorem Entry.unrelated_of_quiet {e : Entry} (h : e.quiet = true) : e.unrelated = true := by
  cases e with
  | asked | created | offered | released => cases h
  | event e =>
    cases e with
    | disconnected | stopped => cases h
    | _ => rfl
  | _ => rfl

theorem Journal.unrelated_of_mem_ofNotices {ns : List Notice} {e : Entry}
    (h : e ∈ Journal.ofNotices ns) : e.unrelated = true := by
  obtain ⟨n, _, rfl⟩ := Journal.mem_ofNotices_iff.mp h
  rfl

theorem Entry.fits_of_unrelated {e : Entry} (h : e.unrelated = true) (earlier : Journal) :
    e.Fits earlier := by
  cases e with
  | asked | created | offered | released => cases h
  | event e =>
    cases e with
    | disconnected | stopped => cases h
    | _ => trivial
  | _ => trivial

namespace Journal

def Orderly : Journal → Prop
  | [] => True
  | e :: earlier => e.Fits earlier ∧ Orderly earlier

namespace Orderly

variable {j later earlier : Journal} {e : Entry}

theorem suffix (h : (later ++ earlier).Orderly) : earlier.Orderly := by
  induction later with
  | nil => exact h
  | cons e later ih => exact ih h.2

theorem fits (h : j.Orderly) (hj : j = later ++ e :: earlier) : e.Fits earlier := by
  rw [hj] at h
  exact h.suffix.1

theorem created_of_released {g : Nat} (h : j.Orderly) (hr : Entry.released g ∈ j) :
    ∃ codecs, Entry.created g codecs ∈ j := by
  obtain ⟨later, earlier, hj⟩ := List.append_of_mem hr
  obtain ⟨⟨codecs, hc⟩, _⟩ := h.fits hj
  exact ⟨codecs, by simp [hj, hc]⟩

theorem unreleased_unique (h : j.Orderly) {g g' : Nat} (hg : j.Unreleased g)
    (hg' : j.Unreleased g') : g = g' := by
  induction j with
  | nil => simp [Unreleased] at hg
  | cons e j ih =>
    -- The one that was created last was created into a vacant journal.
    have hvacant {g : Nat} {codecs : Codecs} (he : e = .created g codecs) : Vacant j := by
      have hf := h.1
      rw [he] at hf
      exact hf.2.1
    rcases unreleased_of_cons hg with ⟨codecs, he⟩ | hg
    · rcases unreleased_of_cons hg' with ⟨codecs', he'⟩ | hg'
      · rw [he] at he'
        injection he'
      · exact absurd hg' (hvacant he g')
    · rcases unreleased_of_cons hg' with ⟨codecs', he'⟩ | hg'
      · exact absurd hg (hvacant he' g)
      · exact ih h.2 hg hg'

theorem generations_increase (h : j.Orderly) : (j.select Entry.created?).Pairwise (· < ·) := by
  unfold select
  rw [List.pairwise_reverse]
  induction j with
  | nil => exact .nil
  | cons e j ih =>
    have hj := ih h.2
    cases e with
    | created g codecs =>
      refine List.pairwise_cons.mpr ⟨fun g' hg' => ?_, hj⟩
      obtain ⟨e, he, heq⟩ := List.mem_filterMap.mp hg'
      obtain ⟨codecs', rfl⟩ : ∃ codecs', e = .created g' codecs' := Entry.created?_eq_some heq
      exact h.1.2.2 g' codecs' he
    | _ => exact hj

theorem releases_le (h : j.Orderly) (g : Nat) : j.releases g ≤ 1 := by
  induction j with
  | nil => exact Nat.zero_le 1
  | cons e j ih =>
    by_cases he : e.isReleaseOf g = true
    · cases e with
      | released g' =>
        obtain rfl : g' = g := by simpa [Entry.isReleaseOf] using he
        have hnone : releases j g' = 0 := releases_eq_zero_iff.mpr h.1.2
        rw [releases, List.countP_cons_of_pos he]
        exact Nat.succ_le_succ (Nat.le_of_eq hnone)
      | _ => cases he
    · rw [releases, List.countP_cons_of_neg he]
      exact ih h.2

end Orderly

/-- The journal of a session that has come to this generation and holds this sink. -/
structure Ledger (j : Journal) (generation : Nat) (sink : Option Nat) : Prop where
  orderly : j.Orderly
  announced : j.announcements = generation
  numbered : ∀ g codecs, Entry.created g codecs ∈ j → g ≤ generation
  held : ∀ g, j.Unreleased g ↔ sink = some g

namespace Ledger

variable {j : Journal} {e : Entry} {entries : Journal} {n g : Nat} {sink : Option Nat}

theorem vacant (h : Ledger j n none) : j.Vacant := fun g hg => by
  cases (h.held g).mp hg

theorem note (h : Ledger j n sink) (hf : e.Fits j) (hn : e.neutral = true) :
    Ledger (e :: j) n sink := by
  have hc (g : Nat) (codecs : Codecs) : e ≠ .created g codecs := by rintro rfl; cases hn
  have hr (g : Nat) : e ≠ .released g := by rintro rfl; cases hn
  have ha : e.isAnnouncement = false := by
    cases e with
    | asked => cases hn
    | _ => rfl
  refine ⟨⟨hf, h.orderly⟩, ?_, ?_, fun g => ?_⟩
  · rw [announcements, List.countP_cons_of_neg (by simp [ha])]
    exact h.announced
  · intro g codecs hg
    rcases List.mem_cons.mp hg with hg | hg
    · exact absurd hg.symm (hc g codecs)
    · exact h.numbered g codecs hg
  · rw [unreleased_cons_iff (hc g) (hr g)]
    exact h.held g

theorem grow (h : Ledger j n sink) (he : ∀ e ∈ entries, e.unrelated = true) :
    Ledger (entries ++ j) n sink := by
  induction entries with
  | nil => exact h
  | cons e entries ih =>
    have hunrelated := he e List.mem_cons_self
    exact (ih fun e he' => he e (List.mem_cons_of_mem _ he')).note
      (Entry.fits_of_unrelated hunrelated _) (Entry.neutral_of_unrelated hunrelated)

theorem release (h : Ledger j n (some g)) : Ledger (.released g :: j) n none := by
  refine ⟨⟨(h.held g).mpr rfl, h.orderly⟩, h.announced, ?_, fun g' => ?_⟩
  · intro g' codecs hg
    rcases List.mem_cons.mp hg with hg | hg
    · cases hg
    · exact h.numbered g' codecs hg
  · refine ⟨fun hg => ?_, nofun⟩
    have hne : g' ≠ g := by
      rintro rfl
      exact hg.2 List.mem_cons_self
    rcases unreleased_of_cons hg with ⟨codecs, hc⟩ | hg
    · cases hc
    · exact absurd (Option.some.inj ((h.held g').mp hg)).symm hne

theorem ask (mimeType : String) (h : Ledger j n none) :
    Ledger (.asked mimeType :: j) (n + 1) none := by
  refine ⟨⟨h.vacant, h.orderly⟩, ?_, ?_, fun g => ?_⟩
  · rw [announcements, List.countP_cons_of_pos rfl]
    exact congrArg (· + 1) h.announced
  · intro g codecs hg
    rcases List.mem_cons.mp hg with hg | hg
    · cases hg
    · exact Nat.le_succ_of_le (h.numbered g codecs hg)
  · rw [unreleased_cons_iff (fun codecs he => by cases he) (fun he => by cases he)]
    exact h.held g

theorem create (codecs : Codecs) (h : Ledger j n none)
    (hn : ∀ g codecs, Entry.created g codecs ∈ j → g < n) :
    Ledger (.created n codecs :: j) n (some n) := by
  refine ⟨⟨⟨h.announced.symm, h.vacant, hn⟩, h.orderly⟩, h.announced, ?_, fun g => ?_⟩
  · intro g codecs' hg
    rcases List.mem_cons.mp hg with hg | hg
    · cases hg
      exact Nat.le_refl n
    · exact h.numbered g codecs' hg
  · constructor
    · intro hg
      rcases unreleased_of_cons hg with ⟨codecs', hc⟩ | hg
      · cases hc
        rfl
      · exact absurd hg (h.vacant g)
    · rintro ⟨⟩
      refine ⟨⟨codecs, List.mem_cons_self⟩, fun hr => ?_⟩
      rcases List.mem_cons.mp hr with hr | hr
      · cases hr
      · obtain ⟨codecs', hc⟩ := h.orderly.created_of_released hr
        exact absurd (hn n codecs' hc) (Nat.lt_irrefl n)

end Ledger

end Journal

/-! ## Sessions -/

namespace Supervisor

/-- What the journal says of sinks is what the supervisor holds. -/
def Accounted (s : Supervisor σ) : Prop :=
  s.journal.Ledger s.generation (s.queue.map AppendQueue.generation)

namespace Accounted

variable {out : Surface σ} {s s' : Supervisor σ}

theorem grow (h : s.Accounted) (entries : Journal) (hj : s'.journal = entries ++ s.journal)
    (he : ∀ e ∈ entries, e.unrelated = true) (hg : s'.generation = s.generation)
    (hq : s'.queue.map AppendQueue.generation = s.queue.map AppendQueue.generation) :
    s'.Accounted := by
  unfold Accounted
  rw [hj, hg, hq]
  exact Journal.Ledger.grow h he

theorem vacant (h : s.Accounted) (hq : s.queue = none) : s.journal.Vacant := by
  rw [Accounted, hq] at h
  exact h.vacant

/-- A session without a queue has released every sink it had. -/
theorem releases_eq_one (h : s.Accounted) (hq : s.queue = none) {g : Nat} {codecs : Codecs}
    (hc : .created g codecs ∈ s.journal) : s.journal.releases g = 1 := by
  have hle : s.journal.releases g ≤ 1 := h.orderly.releases_le g
  have hne : s.journal.releases g ≠ 0 := fun h0 =>
    h.vacant hq g ⟨⟨codecs, hc⟩, Journal.releases_eq_zero_iff.mp h0⟩
  omega

theorem unreleased {q : AppendQueue} (h : s.Accounted) (hq : s.queue = some q) :
    s.journal.Unreleased q.generation :=
  (h.held q.generation).mpr (by simp [hq])

theorem generation_le {q : AppendQueue} (h : s.Accounted) (hq : s.queue = some q) :
    q.generation ≤ s.generation := by
  obtain ⟨⟨codecs, hc⟩, _⟩ := h.unreleased hq
  exact h.numbered _ codecs hc

theorem release {q : AppendQueue} (h : s.Accounted) (hq : s.queue = some q) :
    (s.release out q).Accounted := by
  rw [Accounted, hq] at h
  have hreleased : Journal.Ledger (.released q.generation :: s.journal) s.generation none :=
    h.release
  exact (hreleased.grow fun e => Journal.unrelated_of_mem_ofNotices).note trivial rfl

theorem destroyQueue (ha : s.Alive) (h : s.Accounted) : (s.destroyQueue out).Accounted := by
  cases hq : s.queue with
  | none => rwa [destroyQueue_of_none hq]
  | some q =>
    rw [destroyQueue_of_some hq (ha q hq)]
    exact h.release hq

/-- From an announcement to what comes of it: no sink lives, and all were created before. -/
theorem announce {f : ByteArray} {codecs : Codecs} (ha : s.Alive) (h : s.Accounted)
    (hears : Hears out ((s.register f).announce out codecs) s') :
    s'.Accounted ∧ s'.queue = none ∧
      ∀ g codecs, Entry.created g codecs ∈ s'.journal → g < s'.generation := by
  let d := (s.register f).destroyQueue out
  have hregister : (s.register f).Accounted :=
    h.grow [.received f] rfl (by simp [Entry.unrelated]) rfl rfl
  have hd : d.Accounted := destroyQueue ha hregister
  rw [Accounted, destroyQueue_queue] at hd
  have hgeneration : s'.generation = d.generation + 1 := hears.generation
  have hq : s'.queue = none := hears.queue.trans (destroyQueue_queue out _)
  obtain ⟨notices, _, hj⟩ := hears.heard
  refine ⟨?_, hq, fun g codecs hc => ?_⟩
  · rw [Accounted, hj, hgeneration, hq]
    exact (hd.ask codecs.mimeType).grow fun e => Journal.unrelated_of_mem_ofNotices
  · rw [hj] at hc
    have hc : Entry.created g codecs ∈ d.journal := by
      rcases List.mem_append.mp hc with hc | hc
      · cases Journal.unrelated_of_mem_ofNotices hc
      · rcases List.mem_cons.mp hc with hc | hc
        · cases hc
        · exact hc
    have := hd.numbered g codecs hc
    omega

theorem install {codecs : Codecs} (h : s.Accounted) (hq : s.queue = none)
    (hn : ∀ g codecs, Entry.created g codecs ∈ s.journal → g < s.generation) :
    (s.install codecs).Accounted := by
  rw [Accounted, hq] at h
  exact (h.create codecs hn).note trivial rfl

theorem offered {q q' : AppendQueue} {chunk : ByteArray} {accepted : Bool} (h : s.Accounted)
    (hq : s.queue = some q) (hq' : q'.generation = q.generation) :
    { s.offerTo out q.generation chunk accepted with queue := some q' }.Accounted := by
  rw [Accounted, hq] at h
  have hoffered : Journal.Ledger (.offered q.generation chunk accepted :: s.journal) s.generation
      (some q'.generation) := by
    rw [hq']
    exact h.note ((h.held _).mpr rfl) rfl
  exact hoffered.grow fun e => Journal.unrelated_of_mem_ofNotices

theorem quiet (h : s.Accounted) (hquiet : Quiet s s') : s'.Accounted := by
  obtain ⟨entries, he, hj⟩ := hquiet.journal
  exact h.grow _ hj (fun e hm => Entry.unrelated_of_quiet (he e hm)) hquiet.generation
    (by rw [hquiet.queue])

theorem retire (h : s.Accounted) (hq : s.queue = none) (hs : s.state ≠ .destroyed) :
    ((s.setState .destroyed).emit .stopped).Accounted := by
  rw [setState, if_neg hs]
  have hstate : Supervisor.Accounted
      { s with state := .destroyed, journal := .state .destroyed :: s.journal } :=
    h.grow [.state .destroyed] rfl (by simp [Entry.unrelated]) rfl rfl
  exact Journal.Ledger.note hstate (hstate.vacant hq) rfl

theorem playAct (ha : s.Alive) (hp : PlayAct out s s') (h : s.Accounted) : s'.Accounted := by
  cases hp with
  | hear hears =>
    obtain ⟨notices, _, hj⟩ := hears.heard
    exact h.grow _ hj (fun e => Journal.unrelated_of_mem_ofNotices) hears.generation
      (by rw [hears.queue])
  | seek position => exact h.grow [.sought position] rfl (by simp [Entry.unrelated]) rfl rfl
  | malformed | stray | withhold =>
    exact h.grow [.received _] rfl (by simp [Entry.unrelated]) rfl rfl
  | publish =>
    exact h.grow [.event (.metadata _), .metadata _, .received _] rfl
      (by simp [Entry.unrelated]) rfl rfl
  | enqueue _ _ hq =>
    exact h.grow [.received _] rfl (by simp [Entry.unrelated]) rfl (by simp [hq])
  | accept _ hq => exact h.offered hq rfl
  | refuse _ hq => exact h.offered hq rfl
  | finish _ hq =>
    exact h.grow [.finished _ _] rfl (by simp [Entry.unrelated]) rfl (by simp [hq])
  | ignore => exact h.grow [] rfl nofun rfl rfl
  | install _ _ hears =>
    obtain ⟨h, hq, hn⟩ := h.announce ha hears
    exact h.install hq hn
  | decline _ _ hears =>
    obtain ⟨h, hq, _⟩ := h.announce ha hears
    exact h.grow [.event (.codecUnsupported _ _)] rfl (by simp [Entry.unrelated]) rfl rfl
  | falter _ _ hears => exact (h.announce ha hears).1

theorem act (h : s.Accounted) (ha : s.Alive) (hact : Act out s s') : s'.Accounted := by
  cases hact with
  | play hp => exact playAct ha hp h
  | breakdown hb =>
    cases hb with
    | mk hq => exact h.grow _ rfl (fun e => Journal.unrelated_of_mem_ofNotices) rfl (by simp [hq])
  | quiet hquiet => exact h.quiet hquiet
  | opened attempt =>
    exact h.grow [.opened attempt] rfl (by simp [Entry.unrelated]) rfl rfl
  | drop => exact h.grow [.transportDropped _] rfl (by simp [Entry.unrelated]) rfl rfl
  | release hq => exact h.release hq
  | disconnect why hq => exact Journal.Ledger.note h (h.vacant hq) rfl
  | retire hq hs => exact h.retire hq hs

theorem notify (h : s.Accounted) (n : Notice) : (s.notify n).Accounted := by
  have hn : (s.note (.notified n.generation)).Accounted :=
    h.grow [.notified _] rfl (by simp [Entry.unrelated]) rfl rfl
  unfold Supervisor.notify
  simp only
  split <;> exact hn

theorem spawn (url : String) (config : Config) (x : σ) (tracing : Bool) :
    (Supervisor.spawn url config x tracing).Accounted :=
  ⟨trivial, rfl, nofun, fun g => by simp [Journal.Unreleased, Supervisor.spawn]⟩

end Accounted

end Supervisor

theorem Reachable.accounted {out : Surface σ} {m : Moment σ} (h : Reachable out m) :
    m.supervisor.Accounted :=
  (h.invariant Supervisor.Accounted.spawn (fun _ _ ha hact h => h.act ha hact)
    (fun _ n h => h.notify n) fun _ _ h => h).2

/-- The sinks of a session, as its journal tells, from their creation to their release. -/
structure Journal.SinksKept (j : Journal) (finished : Bool) : Prop where
  /-- Generations grow over the whole session, and every announcement takes one up. -/
  increasing : (j.select Entry.created?).Pairwise (· < ·)
  numbered : ∀ (later earlier : Journal) g codecs, j = later ++ .created g codecs :: earlier →
    g = earlier.announcements
  /-- What is released was created; none is released twice, and in the end all of them were. -/
  created : ∀ (later earlier : Journal) g, j = later ++ .released g :: earlier →
    ∃ codecs, Entry.created g codecs ∈ earlier
  once : ∀ g, j.releases g ≤ 1
  all : finished = true → ∀ g codecs, Entry.created g codecs ∈ j → j.releases g = 1
  /-- No chunk is offered after the release, nor before the creation. -/
  offered : ∀ (later earlier : Journal) g chunk accepted,
    j = later ++ .offered g chunk accepted :: earlier → earlier.Unreleased g
  /-- At no time there are two of them. -/
  unique : ∀ (later earlier : Journal) g g', j = later ++ earlier → earlier.Unreleased g →
    earlier.Unreleased g' → g = g'
  /-- None is left when the surface is asked for other codecs, and when the loss of the transport
  or the stop is reported. -/
  asked : ∀ (later earlier : Journal) mimeType, j = later ++ .asked mimeType :: earlier →
    earlier.Vacant
  disconnected : ∀ (later earlier : Journal) why,
    j = later ++ .event (.disconnected why) :: earlier → earlier.Vacant
  stopped : ∀ later earlier : Journal, j = later ++ .event .stopped :: earlier → earlier.Vacant

/-- Whatever its surface answers and however its connections go, a session keeps its sinks. -/
theorem sink_lifecycle {out : Surface σ} {m : Moment σ} (h : Reachable out m) :
    m.journal.SinksKept m.supervisor.isOver := by
  have hledger := h.accounted
  have horderly : m.journal.Orderly := hledger.orderly
  refine ⟨horderly.generations_increase, ?_, ?_, horderly.releases_le, ?_, ?_, ?_, ?_, ?_, ?_⟩
  · intro later earlier g codecs hj
    exact (horderly.fits hj).1
  · intro later earlier g hj
    exact (horderly.fits hj).1
  · intro hover g codecs hc
    have hvacant := hledger.vacant (h.sound.queue_of_over hover)
    have hr : ¬ m.journal.releases g = 0 := fun h0 =>
      hvacant g ⟨⟨codecs, hc⟩, Journal.releases_eq_zero_iff.mp h0⟩
    have := horderly.releases_le g
    omega
  · intro later earlier g chunk accepted hj
    exact horderly.fits hj
  · intro later earlier g g' hj hg hg'
    rw [hj] at horderly
    exact horderly.suffix.unreleased_unique hg hg'
  · intro later earlier mimeType hj
    exact horderly.fits hj
  · intro later earlier why hj
    exact horderly.fits hj
  · intro later earlier hj
    exact horderly.fits hj

/-- Two announcements, of which the second replaces a sink that holds a chunk. -/
theorem sink_lifecycle_of_replacement :
    let m := Moment.scripted Rehearsal.Stage.surface (.create false)
      [.frame (FrameTag.codec.build "avc1".toUTF8), .frame (FrameTag.media.build "a".toUTF8),
        .frame (FrameTag.codec.build "hvc1".toUTF8)] 16
    m.journal.select Entry.created? = [1, 2] ∧ m.supervisor.isOver = true ∧
      m.journal.SinksKept m.supervisor.isOver :=
  ⟨by decide +kernel, by decide +kernel,
    sink_lifecycle (Moment.reachable_scripted _ _ _ _)⟩

end LivePlayback
