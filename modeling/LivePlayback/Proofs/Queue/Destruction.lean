import LivePlayback.Proofs.Queue.Conservation

/-!
# Giving up a queue

A queue is destroyed once in its life, whether somebody asks for it or it is only given up. Its sink
is released at that moment and never heard of again, and what still waited is counted. The sink may
answer as it likes, and may break down.
-/

namespace LivePlayback
set_option autoImplicit false

variable {τ : Type}

def QueueEntry.isReleased : QueueEntry → Bool
  | .released => true
  | _ => false

namespace QueueJournal

/-- How often the sink was released. -/
def releases (j : QueueJournal) : Nat := j.countP QueueEntry.isReleased

theorem releases_ended (j : QueueJournal) (summary : QueueSummary) :
    releases (.ended summary :: .released :: j) = j.releases + 1 := by
  simp [releases, List.countP_cons, QueueEntry.isReleased]

/-- Reports that nobody awaits. -/
def overheard (n : Nat) : QueueJournal := List.replicate n (.reported false)

theorem overheard_append (m n : Nat) : overheard m ++ overheard n = overheard (m + n) :=
  List.replicate_append_replicate

theorem releases_overheard (n : Nat) (j : QueueJournal) :
    releases (overheard n ++ j) = j.releases := by
  simp [releases, overheard, List.countP_replicate, QueueEntry.isReleased]

theorem offers_overheard (n : Nat) (j : QueueJournal) :
    offers (overheard n ++ j) = j.offers := by
  simp [offers, overheard, QueueEntry.offer?]

end QueueJournal

/-- Who gives a queue up destroys it. -/
abbrev QueueDeed.drop : QueueDeed τ := .destroy

namespace QueueCourse

variable {sink : Sink τ} {c : QueueCourse τ} {arrived : List ByteArray}

/-- A queue that is not destroyed yet, after so much has arrived. -/
structure Living (c : QueueCourse τ) (arrived : List ByteArray) : Prop where
  undestroyed : c.queue.state ≠ .destroyed
  /-- Even a sink that breaks down leaves nothing waiting before an idle queue. -/
  idle : c.queue.state = .idle → c.queue.pending = []
  conserved : c.journal.offers ++ c.queue.pending = arrived
  unreleased : c.journal.releases = 0

namespace Living

theorem start (codecs : Codecs) (generation : Nat) (world : τ) :
    (QueueCourse.start codecs generation world).Living [] :=
  ⟨nofun, fun _ => rfl, rfl, rfl⟩

/-- A queue that is idle offers a single chunk. -/
theorem offer {j : QueueJournal} {waiting : List ByteArray} (q : AppendQueue) (world : τ)
    (hs : q.state ≠ .destroyed) (hidle : q.state = .idle → waiting.tail = [])
    (hoffers : j.offers ++ waiting = arrived) (hreleases : j.releases = 0) :
    (ofProgress (q.offer sink.recorded (world, j) waiting)).Living arrived := by
  induction waiting generalizing q world j with
  | nil =>
    refine ⟨?_, fun _ => rfl, hoffers, hreleases⟩
    simp [ofProgress, AppendQueue.offer]
  | cons chunk waiting ih =>
    have hmoved (accepted : Bool) :
        QueueJournal.offers (.offered chunk accepted :: j) ++ waiting = arrived := by
      rw [QueueJournal.offers_offered, List.append_assoc]
      exact hoffers
    cases ha : sink.append world chunk with
    | mk answer world' =>
      rw [AppendQueue.offer, Sink.recorded_append ha]
      cases answer with
      | accepted =>
        refine ⟨?_, ?_, hmoved true, hreleases⟩ <;> simp [ofProgress]
      | refused why =>
        refine ih _ _ hs (fun hi => ?_) (hmoved false) hreleases
        have hrest : waiting = [] := hidle hi
        rw [hrest, List.tail_nil]
      | crashed => exact ⟨hs, hidle, hmoved false, hreleases⟩

theorem enqueue (h : c.Living arrived) (chunk : ByteArray) :
    (c.perform sink (.enqueue chunk)).Living (arrived ++ [chunk]) := by
  have hconserved : c.journal.offers ++ (c.queue.pending ++ [chunk]) = arrived ++ [chunk] := by
    rw [← h.conserved, List.append_assoc]
  cases hs : c.queue.state with
  | idle =>
    rw [perform, AppendQueue.enqueue_of_idle hs]
    rw [h.idle hs] at hconserved ⊢
    exact offer c.queue c.world h.undestroyed (fun _ => rfl) hconserved h.unreleased
  | appending =>
    rw [perform, AppendQueue.enqueue_of_appending hs]
    exact ⟨h.undestroyed, fun hi => (by rw [hs] at hi; cases hi), hconserved, h.unreleased⟩
  | destroyed => exact absurd hs h.undestroyed

theorem finish (h : c.Living arrived) (rejection : Option String) :
    (c.perform sink (.finish rejection)).Living arrived := by
  cases hs : c.queue.state with
  | idle =>
    rw [perform, AppendQueue.finish_of_idle hs]
    exact ⟨h.undestroyed, h.idle, h.conserved, h.unreleased⟩
  | appending =>
    rw [perform, AppendQueue.finish_of_appending hs]
    refine offer _ c.world h.undestroyed (fun hi => ?_) h.conserved h.unreleased
    cases hs.symm.trans hi
  | destroyed => exact absurd hs h.undestroyed

theorem perform (h : c.Living arrived) {deed : QueueDeed τ} (hd : deed ≠ .destroy) :
    (c.perform sink deed).Living (arrived ++ deed.chunk?.toList) := by
  have hsame : arrived ++ (none : Option ByteArray).toList = arrived := List.append_nil arrived
  cases deed with
  | enqueue chunk => exact h.enqueue chunk
  | finish rejection => exact hsame.symm ▸ h.finish rejection
  | destroy => exact absurd rfl hd
  | touch change => exact hsame.symm ▸ ⟨h.undestroyed, h.idle, h.conserved, h.unreleased⟩

theorem run (h : c.Living arrived) {deeds : List (QueueDeed τ)} (hd : .destroy ∉ deeds) :
    (c.run sink deeds).Living (arrived ++ deeds.filterMap QueueDeed.chunk?) := by
  induction deeds generalizing c arrived with
  | nil =>
    rw [List.filterMap_nil, List.append_nil]
    exact h
  | cons deed deeds ih =>
    obtain ⟨hfirst, hrest⟩ := not_or.mp (mt List.mem_cons.mpr hd)
    rw [QueueDeed.chunks_cons, ← List.append_assoc]
    exact ih (h.perform fun heq => hfirst heq.symm) hrest

end Living

theorem perform_destroy (sink : Sink τ) (h : c.queue.state ≠ .destroyed) :
    c.perform sink .destroy =
      ⟨{ c.queue with state := .destroyed, pending := [] }, sink.release c.world,
        .ended c.queue.summary :: .released :: c.journal⟩ := by
  simp only [perform, AppendQueue.destroy_of_ne h, Sink.recorded]
  rfl

/-- A destroyed queue takes note of nothing. -/
theorem perform_of_destroyed (sink : Sink τ) (h : c.queue.state = .destroyed)
    (deed : QueueDeed τ) :
    (c.perform sink deed).queue = c.queue ∧
      ∃ n, (c.perform sink deed).journal = QueueJournal.overheard n ++ c.journal := by
  cases deed with
  | enqueue chunk =>
    rw [perform, AppendQueue.enqueue_of_destroyed h]
    exact ⟨rfl, 0, rfl⟩
  | finish rejection =>
    rw [perform, AppendQueue.finish_of_destroyed h, h]
    exact ⟨rfl, 1, rfl⟩
  | destroy =>
    rw [perform, AppendQueue.destroy_of_destroyed h]
    exact ⟨rfl, 0, rfl⟩
  | touch change => exact ⟨rfl, 0, rfl⟩

theorem run_of_destroyed (sink : Sink τ) (h : c.queue.state = .destroyed)
    (deeds : List (QueueDeed τ)) :
    (c.run sink deeds).queue = c.queue ∧
      ∃ n, (c.run sink deeds).journal = QueueJournal.overheard n ++ c.journal := by
  induction deeds generalizing c with
  | nil => exact ⟨rfl, 0, rfl⟩
  | cons deed deeds ih =>
    obtain ⟨hqueue, first, hfirst⟩ := perform_of_destroyed sink h deed
    obtain ⟨hrest, n, hn⟩ := ih (c := c.perform sink deed) (hqueue ▸ h)
    refine ⟨hrest.trans hqueue, n + first, ?_⟩
    rw [← QueueJournal.overheard_append, List.append_assoc, ← hfirst]
    exact hn

/-- How a queue fares whose first destruction comes after `before` and is followed by `after`. -/
structure Perishes (sink : Sink τ) (born : QueueCourse τ) (before after : List (QueueDeed τ)) :
    Prop where
  living : ∀ past, past <+: before → (born.run sink past).queue.state ≠ .destroyed ∧
    (born.run sink past).journal.releases = 0
  destroyed : ((born.run sink before).perform sink .destroy).queue =
    { (born.run sink before).queue with state := .destroyed, pending := [] }
  told : ((born.run sink before).perform sink .destroy).journal =
    .ended (born.run sink before).queue.summary :: .released :: (born.run sink before).journal
  /-- What arrived was offered or is counted as dropped. -/
  counted : (born.run sink before).journal.offers.length +
    (born.run sink before).queue.summary.dropped = (before.filterMap QueueDeed.chunk?).length
  /-- From then on the queue is as it was left, and its sink is left alone. -/
  inert : ∀ next, next <+: after →
    (born.run sink (before ++ .destroy :: next)).queue =
      ((born.run sink before).perform sink .destroy).queue ∧
    (born.run sink (before ++ .destroy :: next)).journal.offers =
      (born.run sink before).journal.offers ∧
    (born.run sink (before ++ .destroy :: next)).journal.releases = 1

theorem Living.perishes {before : List (QueueDeed τ)} (h : c.Living []) (hd : .destroy ∉ before)
    (after : List (QueueDeed τ)) : c.Perishes sink before after := by
  have hlast : (c.run sink before).Living (before.filterMap QueueDeed.chunk?) := h.run hd
  have hdestroy := perform_destroy sink hlast.undestroyed
  refine ⟨fun past hpast => ?_, ?_, ?_, ?_, fun next _ => ?_⟩
  · have hliving : (c.run sink past).Living _ := h.run fun hm => hd (hpast.subset hm)
    exact ⟨hliving.undestroyed, hliving.unreleased⟩
  · rw [hdestroy]
  · rw [hdestroy]
  · have hlength := congrArg List.length hlast.conserved
    rwa [List.length_append] at hlength
  · have hstate : ((c.run sink before).perform sink .destroy).queue.state = .destroyed := by
      rw [hdestroy]
    obtain ⟨hqueue, n, hjournal⟩ := run_of_destroyed sink hstate next
    have hrun : c.run sink (before ++ .destroy :: next) =
        ((c.run sink before).perform sink .destroy).run sink next :=
      List.foldl_append
    rw [hrun, hqueue, hjournal, QueueJournal.offers_overheard, QueueJournal.releases_overheard,
      hdestroy, QueueJournal.releases_ended, hlast.unreleased]
    exact ⟨rfl, rfl, rfl⟩

end QueueCourse

/-- A queue that somebody destroys, or at last gives up, is destroyed once: its sink is released
then, and afterwards neither of them changes or does anything. -/
theorem queue_perishes_once (sink : Sink τ) (codecs : Codecs) (generation : Nat) (world : τ)
    (deeds : List (QueueDeed τ)) :
    ∃ before after, deeds ++ [.drop] = before ++ .destroy :: after ∧
      (QueueCourse.start codecs generation world).Perishes sink before after := by
  have hdropped : QueueDeed.destroy ∈ deeds ++ [.drop] :=
    List.mem_append_right deeds (List.mem_singleton_self _)
  obtain ⟨before, after, hlife, hfirst⟩ := List.eq_append_cons_of_mem hdropped
  exact ⟨before, after, hlife,
    (QueueCourse.Living.start codecs generation world).perishes hfirst after⟩

end LivePlayback
