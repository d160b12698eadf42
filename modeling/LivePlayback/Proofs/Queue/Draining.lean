import LivePlayback.Proofs.Queue.Destruction
import Mathlib.Data.List.Basic

/-!
# What a queue comes to

A sink that judges a chunk by the chunk alone gets the same chunks however its reports are spread
over the arrivals. Whether a chunk was offered on arrival or had to wait makes no difference, and as
many reports as chunks wait, and one for the chunk in flight, let a queue come to rest.
-/

namespace LivePlayback
set_option autoImplicit false

variable {τ : Type}

namespace Sink

/-- It refuses the chunks that a rule says, takes all others, and never breaks down. -/
def Screens (sink : Sink τ) (refused : ByteArray → Bool) : Prop :=
  ∀ world chunk, match (sink.append world chunk).1 with
    | .accepted => refused chunk = false
    | .refused _ => refused chunk = true
    | .crashed => False

/-- A sink that is nothing but its rule. -/
def screening (refused : ByteArray → Bool) : Sink Unit where
  append := fun _ chunk => (if refused chunk then .refused (.append "refused") else .accepted, ())
  release := id

theorem screening_screens (refused : ByteArray → Bool) : (screening refused).Screens refused := by
  intro world chunk
  cases h : refused chunk <;> simp [screening, h]

end Sink

def QueueEntry.taken? : QueueEntry → Option ByteArray
  | .offered chunk true => some chunk
  | _ => none

namespace QueueJournal

/-- The chunks that the sink accepted, oldest first. -/
def taken (j : QueueJournal) : List ByteArray := (j.filterMap QueueEntry.taken?).reverse

theorem length_taken (j : QueueJournal) : j.taken.length = j.accepted := by
  rw [taken, List.length_reverse, accepted]
  induction j with
  | nil => rfl
  | cons e j ih =>
    rw [List.countP_cons, ← ih]
    cases e with
    | offered chunk accepted => cases accepted <;> rfl
    | _ => rfl

/-- Every answer in the journal is the one that the rule says. -/
def Screened (refused : ByteArray → Bool) (j : QueueJournal) : Prop :=
  ∀ chunk accepted, .offered chunk accepted ∈ j → accepted = !refused chunk

theorem Screened.taken_eq {refused : ByteArray → Bool} {j : QueueJournal}
    (h : j.Screened refused) : j.taken = j.offers.filter (!refused ·) := by
  have htaken : ∀ e ∈ j, e.taken? = e.offer?.filter (!refused ·) := by
    intro e he
    cases e with
    | offered chunk accepted =>
      have haccepted := h chunk accepted he
      simp only [QueueEntry.offer?, Option.filter_some, ← haccepted]
      cases accepted <;> rfl
    | _ => rfl
  rw [taken, offers, List.filter_reverse, List.filter_filterMap, List.filterMap_congr htaken]

end QueueJournal

namespace QueueCourse

variable {sink : Sink τ} {refused : ByteArray → Bool} {c : QueueCourse τ} {arrived : List ByteArray}

/-- The queue and the journal count the same, and the sink was true to its rule. -/
structure Screened (refused : ByteArray → Bool) (c : QueueCourse τ) : Prop where
  journal : c.journal.Screened refused
  issued : c.queue.issued = c.journal.accepted

namespace Screened

theorem start (codecs : Codecs) (generation : Nat) (world : τ) :
    (QueueCourse.start codecs generation world).Screened refused :=
  ⟨nofun, rfl⟩

/-- What is no answer of the sink changes neither side. -/
theorem note {queue : AppendQueue} {world : τ} {e : QueueEntry} (h : c.Screened refused)
    (hissued : queue.issued = c.queue.issued) (he : e.offer? = none) :
    (⟨queue, world, e :: c.journal⟩ : QueueCourse τ).Screened refused := by
  cases e with
  | offered chunk accepted => cases he
  | _ =>
    refine ⟨fun chunk accepted hm => ?_, hissued.trans h.issued⟩
    cases hm with
    | tail _ hm => exact h.journal chunk accepted hm

theorem offer (hsink : sink.Screens refused) {j : QueueJournal} {q : AppendQueue} (world : τ)
    (waiting : List ByteArray) (hj : j.Screened refused) (hissued : q.issued = j.accepted) :
    (ofProgress (q.offer sink.recorded (world, j) waiting)).Screened refused := by
  induction waiting generalizing q world j with
  | nil => exact ⟨hj, hissued⟩
  | cons chunk waiting ih =>
    have hanswer := hsink world chunk
    have hjudged (accepted : Bool) (h : accepted = !refused chunk) :
        QueueJournal.Screened refused (.offered chunk accepted :: j) := by
      intro chunk' accepted' hm
      cases hm with
      | head => exact h
      | tail _ hm => exact hj chunk' accepted' hm
    cases ha : sink.append world chunk with
    | mk answer world' =>
      rw [ha] at hanswer
      rw [AppendQueue.offer, Sink.recorded_append ha]
      cases answer with
      | accepted =>
        refine ⟨hjudged true (by simp [show refused chunk = false from hanswer]), ?_⟩
        have haccepted : QueueJournal.accepted (.offered chunk true :: j) = j.accepted + 1 :=
          List.countP_cons_of_pos rfl
        exact (congrArg (· + 1) hissued).trans haccepted.symm
      | refused why =>
        exact ih world' (hjudged false (by simp [show refused chunk = true from hanswer])) hissued
      | crashed => cases hanswer

theorem perform (hsink : sink.Screens refused) (h : c.Screened refused) (deed : QueueDeed τ) :
    (c.perform sink deed).Screened refused := by
  cases deed with
  | enqueue chunk =>
    cases hs : c.queue.state with
    | idle =>
      rw [QueueCourse.perform, AppendQueue.enqueue_of_idle hs]
      exact offer hsink c.world _ h.journal h.issued
    | appending =>
      rw [QueueCourse.perform, AppendQueue.enqueue_of_appending hs]
      exact ⟨h.journal, h.issued⟩
    | destroyed =>
      rw [QueueCourse.perform, AppendQueue.enqueue_of_destroyed hs]
      exact h
  | finish rejection =>
    have hnoted (awaited : Bool) :
        (⟨c.queue, c.world, .reported awaited :: c.journal⟩ : QueueCourse τ).Screened refused :=
      h.note rfl rfl
    cases hs : c.queue.state with
    | idle =>
      rw [QueueCourse.perform, AppendQueue.finish_of_idle hs, hs]
      exact hnoted _
    | appending =>
      rw [QueueCourse.perform, AppendQueue.finish_of_appending hs, hs]
      exact offer hsink c.world _ (hnoted _).journal (hnoted _).issued
    | destroyed =>
      rw [QueueCourse.perform, AppendQueue.finish_of_destroyed hs, hs]
      exact hnoted _
  | destroy =>
    by_cases hs : c.queue.state = .destroyed
    · rw [QueueCourse.perform, AppendQueue.destroy_of_destroyed hs]
      exact h
    · have hreleased : (⟨c.queue, c.world, .released :: c.journal⟩ : QueueCourse τ).Screened refused :=
        h.note rfl rfl
      rw [perform_destroy sink hs]
      exact hreleased.note rfl rfl
  | touch change => exact ⟨h.journal, h.issued⟩

theorem run (hsink : sink.Screens refused) (h : c.Screened refused) (deeds : List (QueueDeed τ)) :
    (c.run sink deeds).Screened refused := by
  induction deeds generalizing c with
  | nil => exact h
  | cons deed deeds ih => exact ih (h.perform hsink deed)

end Screened

/-- How many reports a queue needs to come to rest: one for the chunk in flight and one for each
that waits and will be taken. -/
def load (refused : ByteArray → Bool) (c : QueueCourse τ) : Nat :=
  c.queue.pending.countP (!refused ·) + if c.queue.state = .appending then 1 else 0

theorem load_le (refused : ByteArray → Bool) (c : QueueCourse τ) :
    c.load refused ≤ c.queue.pending.length + 1 := by
  have hpending := List.countP_le_length (p := (!refused ·)) (l := c.queue.pending)
  rw [load]
  split <;> omega

theorem Living.idle_iff (h : c.Living arrived) :
    c.queue.state = .idle ↔ c.load refused = 0 := by
  rw [load]
  cases hs : c.queue.state with
  | idle => simp [h.idle hs]
  | appending => simp
  | destroyed => exact absurd hs h.undestroyed

/-- Offering takes off what is refused, and puts what is taken in flight. -/
theorem load_offer (hsink : sink.Screens refused) (q : AppendQueue) (w : τ × QueueJournal)
    (waiting : List ByteArray) :
    (ofProgress (q.offer sink.recorded w waiting)).load refused =
      waiting.countP (!refused ·) := by
  induction waiting generalizing q w with
  | nil => rfl
  | cons chunk waiting ih =>
    have hanswer := hsink w.1 chunk
    cases ha : sink.append w.1 chunk with
    | mk answer world =>
      rw [ha] at hanswer
      rw [AppendQueue.offer, Sink.recorded_append ha]
      cases answer with
      | accepted => simp [ofProgress, load, show refused chunk = false from hanswer]
      | refused why =>
        rw [List.countP_cons_of_neg (by simp [show refused chunk = true from hanswer])]
        exact ih _ _
      | crashed => cases hanswer

theorem load_finish (hsink : sink.Screens refused) (h : c.Living arrived)
    (rejection : Option String) :
    (c.perform sink (.finish rejection)).load refused = c.load refused - 1 := by
  cases hs : c.queue.state with
  | idle =>
    have hrest : c.load refused = 0 := h.idle_iff.mp hs
    rw [hrest, perform, AppendQueue.finish_of_idle hs]
    exact hrest
  | appending =>
    rw [perform, AppendQueue.finish_of_appending hs, load_offer hsink, load, if_pos hs,
      Nat.add_sub_cancel]
  | destroyed => exact absurd hs h.undestroyed

/-- One report after the other comes, and nothing else. -/
def drain (sink : Sink τ) (c : QueueCourse τ) (outcomes : List (Option String)) : QueueCourse τ :=
  c.run sink (outcomes.map .finish)

theorem Living.drain (h : c.Living arrived) (outcomes : List (Option String)) :
    (c.drain sink outcomes).Living arrived := by
  have hd : QueueDeed.destroy ∉ outcomes.map (QueueDeed.finish (τ := τ)) := by simp
  have hchunks : (outcomes.map (QueueDeed.finish (τ := τ))).filterMap QueueDeed.chunk? = [] := by
    simp [QueueDeed.chunk?]
  have hrun : (c.drain sink outcomes).Living _ := h.run hd
  rwa [hchunks, List.append_nil] at hrun

theorem load_drain (hsink : sink.Screens refused) (h : c.Living arrived)
    (outcomes : List (Option String)) :
    (c.drain sink outcomes).load refused = c.load refused - outcomes.length := by
  induction outcomes generalizing c with
  | nil => rfl
  | cons outcome outcomes ih =>
    have hfirst : (c.perform sink (.finish outcome)).Living arrived := h.finish outcome
    calc (c.drain sink (outcome :: outcomes)).load refused
        = (c.perform sink (.finish outcome)).load refused - outcomes.length := ih hfirst
      _ = c.load refused - (outcome :: outcomes).length := by
        rw [load_finish hsink h, List.length_cons]
        omega

theorem idle_drain_iff (hsink : sink.Screens refused) (h : c.Living arrived)
    (outcomes : List (Option String)) :
    (c.drain sink outcomes).queue.state = .idle ↔ c.load refused ≤ outcomes.length := by
  rw [(h.drain outcomes).idle_iff, load_drain hsink h, Nat.sub_eq_zero_iff_le]

/-- A queue at rest, after so much has arrived: nothing waits, and the sink took all that its rule
allows, and that is what was counted. -/
structure Settled (refused : ByteArray → Bool) (c : QueueCourse τ) (arrived : List ByteArray) :
    Prop where
  pending : c.queue.pending = []
  taken : c.journal.taken = arrived.filter (!refused ·)
  issued : c.queue.issued = (arrived.filter (!refused ·)).length

theorem Living.settled (h : c.Living arrived) (hscreened : c.Screened refused)
    (hidle : c.queue.state = .idle) : c.Settled refused arrived := by
  have hpending := h.idle hidle
  have hoffers : c.journal.offers = arrived := by
    rw [← h.conserved, hpending, List.append_nil]
  have htaken : c.journal.taken = arrived.filter (!refused ·) :=
    hoffers ▸ hscreened.journal.taken_eq
  refine ⟨hpending, htaken, ?_⟩
  rw [hscreened.issued, ← QueueJournal.length_taken, htaken]

end QueueCourse

/-- Two schedules of the same arrivals come to the same. After either of them, as many reports as
chunks wait and one more bring the queue to rest; and at rest nothing waits, and the sink took in
order all that its rule allows. -/
theorem queue_result_ignores_schedule {sink : Sink τ} {refused : ByteArray → Bool}
    (hsink : sink.Screens refused) (codecs : Codecs) (generation : Nat) (world world' : τ)
    {deeds deeds' : List (QueueDeed τ)} (hd : .destroy ∉ deeds) (hd' : .destroy ∉ deeds')
    (harrived : deeds'.filterMap QueueDeed.chunk? = deeds.filterMap QueueDeed.chunk?) :
    let c := (QueueCourse.start codecs generation world).run sink deeds
    let c' := (QueueCourse.start codecs generation world').run sink deeds'
    (∀ outcomes, c.queue.pending.length + 1 ≤ outcomes.length →
      (c.drain sink outcomes).queue.state = .idle) ∧
    (∀ outcomes, c'.queue.pending.length + 1 ≤ outcomes.length →
      (c'.drain sink outcomes).queue.state = .idle) ∧
    ∀ outcomes outcomes', (c.drain sink outcomes).queue.state = .idle →
      (c'.drain sink outcomes').queue.state = .idle →
      (c.drain sink outcomes).Settled refused (deeds.filterMap QueueDeed.chunk?) ∧
      (c'.drain sink outcomes').Settled refused (deeds.filterMap QueueDeed.chunk?) := by
  intro c c'
  have hliving : c.Living (deeds.filterMap QueueDeed.chunk?) :=
    (QueueCourse.Living.start codecs generation world).run hd
  have hliving' : c'.Living (deeds.filterMap QueueDeed.chunk?) :=
    harrived ▸ (QueueCourse.Living.start codecs generation world').run hd'
  have hscreened : c.Screened refused :=
    (QueueCourse.Screened.start codecs generation world).run hsink deeds
  have hscreened' : c'.Screened refused :=
    (QueueCourse.Screened.start codecs generation world').run hsink deeds'
  refine ⟨fun outcomes hmany => ?_, fun outcomes hmany => ?_, fun outcomes outcomes' hi hi' => ?_⟩
  · exact (QueueCourse.idle_drain_iff hsink hliving outcomes).mpr
      (Nat.le_trans (c.load_le refused) hmany)
  · exact (QueueCourse.idle_drain_iff hsink hliving' outcomes).mpr
      (Nat.le_trans (c'.load_le refused) hmany)
  · exact ⟨(hliving.drain outcomes).settled (hscreened.run hsink _) hi,
      (hliving'.drain outcomes').settled (hscreened'.run hsink _) hi'⟩

/-- One schedule leaves all work to the end, the other has none left there, and a chunk is refused
for its size. -/
theorem queue_result_ignores_schedule_of_refusal :
    let chunk (text : String) : ByteArray := text.toUTF8
    let refused (chunk' : ByteArray) : Bool := 1 < chunk'.size
    let deeds : List (QueueDeed Unit) :=
      [.enqueue (chunk "a"), .enqueue (chunk "bb"), .enqueue (chunk "c")]
    let deeds' : List (QueueDeed Unit) :=
      [.enqueue (chunk "a"), .finish (some "late"), .enqueue (chunk "bb"), .enqueue (chunk "c"),
        .finish none]
    let born := QueueCourse.start ⟨"av01", by decide +kernel⟩ 1 ()
    let c := born.run (.screening refused) deeds
    let c' := born.run (.screening refused) deeds'
    (Sink.screening refused).Screens refused ∧ .destroy ∉ deeds ∧ .destroy ∉ deeds' ∧
      deeds'.filterMap QueueDeed.chunk? = deeds.filterMap QueueDeed.chunk? ∧
      c.queue.pending = [chunk "bb", chunk "c"] ∧ c'.queue.state = .idle ∧
      (c.drain (.screening refused) [none, none, none]).queue.state = .idle ∧
      (c.drain (.screening refused) [none, none, none]).journal.taken =
        (c'.drain (.screening refused) []).journal.taken := by
  intro chunk refused deeds deeds' born c c'
  have hd : .destroy ∉ deeds := by simp [deeds]
  have hd' : .destroy ∉ deeds' := by simp [deeds']
  have hidle : (c'.drain (.screening refused) []).queue.state = .idle := by decide +kernel
  obtain ⟨hrest, -, hboth⟩ := queue_result_ignores_schedule (Sink.screening_screens refused)
    ⟨"av01", by decide +kernel⟩ 1 () () hd hd' rfl
  have hthree : (c.drain (.screening refused) [none, none, none]).queue.state = .idle :=
    hrest _ (by decide +kernel)
  obtain ⟨h, h'⟩ := hboth _ _ hthree hidle
  exact ⟨Sink.screening_screens refused, hd, hd', rfl, by decide +kernel, hidle, hthree,
    h.taken.trans h'.taken.symm⟩

end LivePlayback
