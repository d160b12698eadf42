import LivePlayback.Proofs.Session.Sinks

/-!
# Single flight

No sink is handed a chunk while it still holds the one before. What a supervisor knows of this are
notices, which carry a generation and nothing else and may be late, so the queue is weighed against
what was accepted, what was reported and what of that is still on its way.
-/

namespace LivePlayback
set_option autoImplicit false

open Supervisor

variable {σ : Type}

/-! ## Accounts of a sink -/

namespace Entry

def isAcceptedBy (g : Nat) : Entry → Bool
  | .offered g' _ accepted => accepted && g' == g
  | _ => false

def isReportOf (g : Nat) : Entry → Bool
  | .notified g' => g' == g
  | _ => false

def isOffer : Entry → Bool
  | .offered _ _ _ => true
  | _ => false

/-- Entries that concern neither a chunk nor a report. -/
def mute : Entry → Bool
  | .offered _ _ _ | .notified _ => false
  | _ => true

theorem isOffer_of_mute {e : Entry} (h : e.mute = true) : e.isOffer = false := by
  cases e with
  | offered => cases h
  | _ => rfl

theorem mute_of_quiet {e : Entry} (h : e.quiet = true) : e.mute = true := by
  cases e with
  | offered | notified => cases h
  | _ => rfl

end Entry

namespace Journal

def accepted (j : Journal) (g : Nat) : Nat := j.countP (Entry.isAcceptedBy g)

def reported (j : Journal) (g : Nat) : Nat := j.countP (Entry.isReportOf g)

/-- How many of these are on their way. -/
def due (notices : List Notice) (g : Nat) : Nat := notices.countP fun n => n.generation == g

/-- Whenever a sink was offered a chunk, it had reported all it accepted. -/
def Settled : Journal → Prop
  | [] => True
  | .offered g _ _ :: j => accepted j g ≤ reported j g ∧ Settled j
  | _ :: j => Settled j

theorem settled_append {entries : Journal} (h : ∀ e ∈ entries, e.isOffer = false) (j : Journal) :
    Settled (entries ++ j) ↔ j.Settled := by
  have hpassed (e : Entry) (j : Journal) (he : (!e.isOffer) = true) :
      Settled (e :: j) = j.Settled := by
    cases e with
    | offered => cases he
    | _ => rfl
  exact iff_of_eq (append_of_passed hpassed (by simpa using h) j)

theorem accepted_cons (e : Entry) (j : Journal) (g : Nat) :
    accepted (e :: j) g = j.accepted g + if e.isAcceptedBy g then 1 else 0 := List.countP_cons

theorem reported_cons (e : Entry) (j : Journal) (g : Nat) :
    reported (e :: j) g = j.reported g + if e.isReportOf g then 1 else 0 := List.countP_cons

theorem due_cons (n : Notice) (ns : List Notice) (g : Nat) :
    due (n :: ns) g = due ns g + if n.generation == g then 1 else 0 := List.countP_cons

theorem due_append (ns ns' : List Notice) (g : Nat) : due (ns ++ ns') g = due ns g + due ns' g :=
  List.countP_append

section Mute

variable {entries : Journal} (h : ∀ e ∈ entries, e.mute = true) (j : Journal)

include h

theorem accepted_append_of_mute (g : Nat) : accepted (entries ++ j) g = j.accepted g := by
  refine append_of_passed (f := (accepted · g)) (fun e j he => ?_) h j
  cases e with
  | offered => cases he
  | _ => simp [accepted_cons, Entry.isAcceptedBy]

theorem reported_append_of_mute (g : Nat) : reported (entries ++ j) g = j.reported g := by
  refine append_of_passed (f := (reported · g)) (fun e j he => ?_) h j
  cases e with
  | notified => cases he
  | _ => simp [reported_cons, Entry.isReportOf]

end Mute

section Notices

variable (ns : List Notice) (j : Journal) (g : Nat)

theorem accepted_ofNotices_append : accepted (ofNotices ns ++ j) g = j.accepted g := by
  rw [accepted, List.countP_append, List.countP_eq_zero.mpr, Nat.zero_add, accepted]
  intro e he
  obtain ⟨n, _, rfl⟩ := mem_ofNotices_iff.mp he
  simp [Entry.isAcceptedBy]

theorem reported_ofNotices_append : reported (ofNotices ns ++ j) g = due ns g + j.reported g := by
  rw [reported, List.countP_append, ofNotices, List.countP_reverse, List.countP_map]
  rfl

theorem settled_ofNotices_append : Settled (ofNotices ns ++ j) ↔ j.Settled := by
  refine settled_append (fun e he => ?_) j
  obtain ⟨n, _, rfl⟩ := mem_ofNotices_iff.mp he
  rfl

end Notices

end Journal

/-! ## Sessions -/

namespace Supervisor

/-- The queue waits for a report as long as one is owed: what the sink accepted and what is on its
way to the queue are covered by what was reported, but for a chunk in flight. -/
structure Balanced (s : Supervisor σ) : Prop where
  settled : s.journal.Settled
  sent : ∀ g, Journal.due s.notices g ≤ s.journal.reported g
  balance : ∀ q, s.queue = some q →
    s.journal.accepted q.generation + Journal.due s.notices q.generation ≤
      s.journal.reported q.generation + if q.state = .appending then 1 else 0

namespace Balanced

variable {out : Surface σ} {s s' : Supervisor σ}

theorem grow (h : s.Balanced) (entries : Journal) (hj : s'.journal = entries ++ s.journal)
    (he : ∀ e ∈ entries, e.mute = true)
    (hn : ∀ g, Journal.due s'.notices g ≤ Journal.due s.notices g)
    (hq : ∀ q', s'.queue = some q' →
      ∃ q, s.queue = some q ∧ q'.generation = q.generation ∧ q'.state = q.state) :
    s'.Balanced := by
  have haccepted (g : Nat) : s'.journal.accepted g = s.journal.accepted g := by
    rw [hj, Journal.accepted_append_of_mute he]
  have hreported (g : Nat) : s'.journal.reported g = s.journal.reported g := by
    rw [hj, Journal.reported_append_of_mute he]
  refine ⟨?_, fun g => ?_, fun q' hq' => ?_⟩
  · rw [hj, Journal.settled_append fun e hm => Entry.isOffer_of_mute (he e hm)]
    exact h.settled
  · rw [hreported]
    exact Nat.le_trans (hn g) (h.sent g)
  · obtain ⟨q, hq, hg, hs⟩ := hq q' hq'
    have hbalance := h.balance q hq
    have hdue := hn q.generation
    rw [haccepted, hreported, hg, hs]
    omega

/-- Reports that come in are on their way. -/
theorem hear (h : s.Balanced) (ns : List Notice) (hj : s'.journal = .ofNotices ns ++ s.journal)
    (hn : s'.notices = s.notices ++ ns)
    (hq : ∀ q', s'.queue = some q' →
      ∃ q, s.queue = some q ∧ q'.generation = q.generation ∧ q'.state = q.state) :
    s'.Balanced := by
  have haccepted (g : Nat) : s'.journal.accepted g = s.journal.accepted g := by
    rw [hj, Journal.accepted_ofNotices_append]
  have hreported (g : Nat) :
      s'.journal.reported g = Journal.due ns g + s.journal.reported g := by
    rw [hj, Journal.reported_ofNotices_append]
  have hdue (g : Nat) : Journal.due s'.notices g = Journal.due s.notices g + Journal.due ns g := by
    rw [hn, Journal.due_append]
  refine ⟨?_, fun g => ?_, fun q' hq' => ?_⟩
  · rw [hj, Journal.settled_ofNotices_append]
    exact h.settled
  · have := h.sent g
    rw [hreported, hdue]
    omega
  · obtain ⟨q, hq, hg, hs⟩ := hq q' hq'
    have hbalance := h.balance q hq
    rw [haccepted, hreported, hdue, hg, hs]
    omega

/-- The same where the queue stays as it is. -/
theorem keep (h : s.Balanced) (entries : Journal) (hj : s'.journal = entries ++ s.journal)
    (he : ∀ e ∈ entries, e.mute = true) (hn : s'.notices = s.notices) (hq : s'.queue = s.queue) :
    s'.Balanced :=
  h.grow entries hj he (fun g => Nat.le_of_eq (by rw [hn])) fun q' hq' => ⟨q', hq ▸ hq', rfl, rfl⟩

theorem release (h : s.Balanced) (q : AppendQueue) : (s.release out q).Balanced := by
  have hreleased : Supervisor.Balanced ({ s with queue := none }.note (.released q.generation)) :=
    h.grow [.released q.generation] rfl (by simp [Entry.mute]) (fun _ => Nat.le_refl _) nofun
  have hheard : (Supervisor.absorb _ (out.release s.surface q.generation)).Balanced :=
    hreleased.hear _ rfl rfl nofun
  exact hheard.keep [.queueEnded q.summary] rfl (by simp [Entry.mute]) rfl rfl

theorem destroyQueue (h : s.Balanced) : (s.destroyQueue out).Balanced := by
  rcases destroyQueue_cases out s with hd | ⟨q, _, hd⟩ <;> rw [hd]
  · exact h.grow [] rfl nofun (fun _ => Nat.le_refl _) nofun
  · exact h.release q

theorem announce {f : ByteArray} {codecs : Codecs} (h : s.Balanced)
    (hears : Hears out ((s.register f).announce out codecs) s') : s'.Balanced := by
  have hregister : (s.register f).Balanced :=
    h.keep [.received f] rfl (by simp [Entry.mute]) rfl rfl
  have hannounce : ((s.register f).announce out codecs).Balanced :=
    hregister.destroyQueue.keep [.asked codecs.mimeType] rfl (by simp [Entry.mute]) rfl rfl
  obtain ⟨ns, hn, hj⟩ := hears.heard
  exact hannounce.hear ns hj hn fun q' hq' => ⟨q', hears.queue ▸ hq', rfl, rfl⟩

theorem accepted_eq_zero {g : Nat} (hacc : s.Accounted)
    (hg : ∀ codecs, Entry.created g codecs ∉ s.journal) : s.journal.accepted g = 0 := by
  rw [Journal.accepted, List.countP_eq_zero]
  intro e he ha
  cases e with
  | offered g' chunk accepted =>
    obtain rfl : g' = g := by
      simp only [Entry.isAcceptedBy, Bool.and_eq_true, beq_iff_eq] at ha
      exact ha.2
    obtain ⟨later, earlier, hj⟩ := List.append_of_mem he
    obtain ⟨⟨codecs, hc⟩, _⟩ := hacc.orderly.fits hj
    exact hg codecs (by simp [hj, hc])
  | _ => cases ha

theorem install {codecs : Codecs} (h : s.Balanced) (hacc : s.Accounted)
    (hn : ∀ g codecs, Entry.created g codecs ∈ s.journal → g < s.generation) :
    (s.install codecs).Balanced := by
  have hzero : s.journal.accepted s.generation = 0 :=
    accepted_eq_zero hacc fun codecs hc => Nat.lt_irrefl _ (hn _ codecs hc)
  have hcreated : Supervisor.Balanced { s.note (.created s.generation codecs) with
      queue := some (.create codecs s.generation) } := by
    refine ⟨h.settled, h.sent, ?_⟩
    rintro q ⟨⟩
    have hsent := h.sent s.generation
    simp only [note, AppendQueue.create, Journal.accepted_cons, Journal.reported_cons,
      Entry.isAcceptedBy, Entry.isReportOf, hzero]
    simpa using hsent
  exact hcreated.keep [.event (.codecChanged codecs)] rfl (by simp [Entry.mute]) rfl rfl

theorem offered {q : AppendQueue} (q' : AppendQueue) {chunk : ByteArray} (accepted : Bool)
    (h : s.Balanced) (hq : s.queue = some q) (hi : q.state = .idle)
    (hg : q'.generation = q.generation)
    (hs : q'.state = if accepted then .appending else .idle) :
    Supervisor.Balanced { s.offerTo out q.generation chunk accepted with queue := some q' } := by
  have hbalance := h.balance q hq
  rw [hi, if_neg (by decide)] at hbalance
  have hnoted : Supervisor.Balanced { s.note (.offered q.generation chunk accepted) with
      queue := some q' } := by
    refine ⟨⟨by omega, h.settled⟩, h.sent, ?_⟩
    rintro q ⟨⟩
    simp only [note, Journal.accepted_cons, Journal.reported_cons, Entry.isAcceptedBy,
      Entry.isReportOf, hg, hs, beq_self_eq_true, Bool.and_true]
    cases accepted <;> simp <;> omega
  exact hnoted.hear _ rfl rfl fun q' hq' => ⟨q', hq', rfl, rfl⟩

theorem finish {q : AppendQueue} (q' : AppendQueue) {n : Notice} {rest : List Notice}
    (h : s.Balanced) (hn : s.notices = n :: rest) (hq : s.queue = some q)
    (hg : q.generation = n.generation) (ha : q.state = .appending)
    (hg' : q'.generation = q.generation) (hs : q'.state = .idle) :
    Supervisor.Balanced { s.note (.finished n.generation n.rejection) with
      notices := rest, queue := some q' } := by
  have hbalance := h.balance q hq
  rw [ha, if_pos rfl, hn, Journal.due_cons, hg, if_pos (beq_self_eq_true _)] at hbalance
  refine ⟨h.settled, fun g => ?_, ?_⟩
  · have hsent := h.sent g
    rw [hn, Journal.due_cons] at hsent
    exact Nat.le_trans (Nat.le_add_right _ _) hsent
  · rintro q ⟨⟩
    rw [hs, if_neg (by decide), hg', hg]
    exact Nat.le_of_succ_le_succ hbalance

theorem playAct (hacc : s.Accounted) (ha : s.Alive) (hp : PlayAct out s s') (h : s.Balanced) :
    s'.Balanced := by
  cases hp with
  | hear hears =>
    obtain ⟨ns, hn, hj⟩ := hears.heard
    exact h.hear ns hj hn fun q' hq' => ⟨q', hears.queue ▸ hq', rfl, rfl⟩
  | seek position => exact h.keep [.sought position] rfl (by simp [Entry.mute]) rfl rfl
  | malformed | stray | withhold =>
    exact h.keep [.received _] rfl (by simp [Entry.mute]) rfl rfl
  | publish =>
    exact h.keep [.event (.metadata _), .metadata _, .received _] rfl (by simp [Entry.mute]) rfl rfl
  | @enqueue f chunk q _ _ hq =>
    refine h.grow [.received f] rfl (by simp [Entry.mute]) (fun _ => Nat.le_refl _) ?_
    rintro q' ⟨⟩
    exact ⟨q, hq, rfl, rfl⟩
  | accept _ hq hi => exact h.offered _ true hq hi rfl rfl
  | refuse _ hq hi => exact h.offered _ false hq hi rfl hi
  | finish hn hq hg ha => exact h.finish _ hn hq hg ha rfl rfl
  | @ignore n rest hn =>
    refine h.grow [] rfl nofun (fun g => ?_) fun q' hq' => ⟨q', hq', rfl, rfl⟩
    rw [hn, Journal.due_cons]
    exact Nat.le_add_right _ _
  | install _ _ hears =>
    obtain ⟨hacc', _, hn⟩ := hacc.announce ha hears
    exact (h.announce hears).install hacc' hn
  | decline _ _ hears =>
    exact (h.announce hears).keep [.event (.codecUnsupported _ _)] rfl (by simp [Entry.mute]) rfl
      rfl
  | falter _ _ hears => exact h.announce hears

theorem act (h : s.Balanced) (hacc : s.Accounted) (ha : s.Alive) (hact : Act out s s') :
    s'.Balanced := by
  cases hact with
  | play hp => exact playAct hacc ha hp h
  | breakdown hb =>
    cases hb with
    | @mk q chunk rest hq =>
      refine h.hear _ rfl rfl ?_
      rintro q' ⟨⟩
      exact ⟨q, hq, rfl, rfl⟩
  | quiet hquiet =>
    obtain ⟨entries, he, hj⟩ := hquiet.journal
    exact h.keep entries hj (fun e hm => Entry.mute_of_quiet (he e hm)) hquiet.notices hquiet.queue
  | opened attempt => exact h.keep [.opened attempt] rfl (by simp [Entry.mute]) rfl rfl
  | drop => exact h.keep [.transportDropped _] rfl (by simp [Entry.mute]) rfl rfl
  | release => exact h.release _
  | disconnect why => exact h.keep [.event (.disconnected why)] rfl (by simp [Entry.mute]) rfl rfl
  | retire _ hs =>
    rw [setState, if_neg hs]
    exact h.keep [.event .stopped, .state .destroyed] rfl (by simp [Entry.mute]) rfl rfl

theorem notify (h : s.Balanced) (n : Notice) : (s.notify n).Balanced := by
  have hheard : Supervisor.Balanced { s.note (.notified n.generation) with
      notices := s.notices ++ [n] } :=
    h.hear [n] rfl rfl fun q' hq' => ⟨q', hq', rfl, rfl⟩
  unfold Supervisor.notify
  simp only
  split
  · refine hheard.grow [] rfl nofun (fun g => ?_) fun q' hq' => ⟨q', hq', rfl, rfl⟩
    rw [Journal.due_append]
    exact Nat.le_add_right _ _
  · exact hheard

end Balanced

end Supervisor

theorem Reachable.balanced {out : Surface σ} {m : Moment σ} (h : Reachable out m) :
    m.supervisor.Balanced := by
  have hspawn (url : String) (config : Config) (x : σ) (tracing : Bool) :
      (Supervisor.spawn url config x tracing).Accounted ∧
        (Supervisor.spawn url config x tracing).Balanced :=
    ⟨Accounted.spawn _ _ _ _, ⟨trivial, fun _ => Nat.le_refl _, nofun⟩⟩
  exact (h.invariant (P := fun s => s.Accounted ∧ s.Balanced) hspawn
    (fun _ _ ha hact ⟨hacc, hb⟩ => ⟨hacc.act ha hact, hb.act hacc ha hact⟩)
    (fun _ n ⟨hacc, hb⟩ => ⟨hacc.notify n, hb.notify n⟩)
    fun _ _ ⟨hacc, hb⟩ => ⟨hacc, hb.keep [] rfl nofun rfl rfl⟩).2.2

namespace Journal

/-- A sink reports only while it owes a report. -/
def Mannered (j : Journal) (g : Nat) : Prop :=
  ∀ later earlier : Journal, j = later ++ .notified g :: earlier →
    earlier.reported g < earlier.accepted g

theorem Mannered.reported_le {j : Journal} {g : Nat} (h : j.Mannered g) :
    j.reported g ≤ j.accepted g := by
  induction j with
  | nil => exact Nat.le_refl 0
  | cons e j ih =>
    have hj : Mannered j g := fun later earlier hj => h (e :: later) earlier (by simp [hj])
    have ih := ih hj
    rw [accepted_cons, reported_cons]
    by_cases he : e.isReportOf g = true
    · cases e with
      | notified g' =>
        obtain rfl : g' = g := by simpa [Entry.isReportOf] using he
        have := h [] j rfl
        rw [if_pos he]
        omega
      | _ => cases he
    · rw [if_neg he]
      omega

namespace Settled

variable {j later earlier : Journal} {g : Nat}

theorem suffix (h : Settled (later ++ earlier)) : earlier.Settled := by
  induction later with
  | nil => exact h
  | cons e later ih =>
    refine ih ?_
    cases e with
    | offered => exact h.2
    | _ => exact h

/-- The chunk in flight is the only one that a sink has not reported. -/
theorem accepted_le (h : j.Settled) (g : Nat) : j.accepted g ≤ j.reported g + 1 := by
  induction j with
  | nil => exact Nat.zero_le 1
  | cons e j ih =>
    rw [accepted_cons, reported_cons]
    cases e with
    | offered g' chunk accepted =>
      have hle := h.1
      have ih := ih h.2
      by_cases hg : g' = g
      · subst hg
        split <;> split <;> omega
      · simp only [Entry.isAcceptedBy, beq_eq_false_iff_ne.mpr hg, Bool.and_false]
        simp only [Bool.false_eq_true, if_false]
        omega
    | _ =>
      have ih := ih h
      simp only [Entry.isAcceptedBy, Bool.false_eq_true, if_false]
      omega

end Settled

/-- No sink has two chunks in flight, as the journal of a session tells. -/
structure SingleFlight (j : Journal) : Prop where
  /-- At any time at most one accepted chunk was not reported. -/
  outstanding : ∀ (later earlier : Journal) g, j = later ++ earlier →
    earlier.accepted g ≤ earlier.reported g + 1
  /-- A chunk is offered when all before it were reported; by a sink with manners, each of them for
  its own. -/
  offered : ∀ (later earlier : Journal) g chunk accepted,
    j = later ++ .offered g chunk accepted :: earlier →
      earlier.accepted g ≤ earlier.reported g ∧
        (earlier.Mannered g → earlier.accepted g = earlier.reported g)

theorem Settled.singleFlight {j : Journal} (h : j.Settled) : j.SingleFlight := by
  refine ⟨fun later earlier g hj => ?_, fun later earlier g chunk accepted hj => ?_⟩
  · rw [hj] at h
    exact h.suffix.accepted_le g
  · rw [hj] at h
    have hle := h.suffix.1
    exact ⟨hle, fun hm => Nat.le_antisymm hle hm.reported_le⟩

end Journal

end LivePlayback
