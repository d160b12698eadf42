import LivePlayback.Proofs.Session.Frames
import LivePlayback.Proofs.Session.Segments
import LivePlayback.Proofs.Session.SingleFlight
import Mathlib.Algebra.Ring.Nat

/-!
# Accounts

The totals of a session and of its queues add up: every frame, every chunk and every connect is
counted in exactly one place.
-/

namespace LivePlayback
set_option autoImplicit false

open Supervisor

variable {σ : Type}

namespace Entry

def isRefusalBy (g : Nat) : Entry → Bool
  | .offered g' _ accepted => !accepted && g' == g
  | _ => false

/-- An append in flight was rejected late. -/
def isRejectionBy (g : Nat) : Entry → Bool
  | .finished g' rejection => rejection.isSome && g' == g
  | _ => false

def isReceived (p : ByteArray → Bool) : Entry → Bool
  | .received f => p f
  | _ => false

def queueEnded? : Entry → Option QueueSummary
  | .queueEnded u => some u
  | _ => none

/-- The sink that a chunk was offered to, or that is done with one. -/
def sink? : Entry → Option Nat
  | .offered g _ _ | .finished g _ => some g
  | _ => none

end Entry

namespace Journal

def refusals (j : Journal) (g : Nat) : Nat := j.countP (Entry.isRefusalBy g)

def rejections (j : Journal) (g : Nat) : Nat := j.countP (Entry.isRejectionBy g)

def received (j : Journal) (p : ByteArray → Bool) : Nat := j.countP (Entry.isReceived p)

def summaries (j : Journal) : List QueueSummary := j.select Entry.queueEnded?

def generations (j : Journal) : List Nat := j.select Entry.created?

/-- What a queue says of itself is what was done with it. -/
structure Balances (j : Journal) (u : QueueSummary) : Prop where
  issued : u.issued = j.accepted u.generation
  rejected : u.rejected = j.refusals u.generation + j.rejections u.generation
  late : j.rejections u.generation ≤ u.issued

/-- How many chunks went into a queue. -/
def intake (j : Journal) (u : QueueSummary) : Nat :=
  u.issued + j.refusals u.generation + u.dropped

section Cons

theorem select_cons_of_none {α : Type} {f : Entry → Option α} {e : Entry} (h : f e = none)
    (j : Journal) : select (e :: j) f = j.select f := by
  rw [select, List.filterMap_cons_none h, select]

theorem select_cons_of_some {α : Type} {f : Entry → Option α} {e : Entry} {a : α}
    (h : f e = some a) (j : Journal) : select (e :: j) f = j.select f ++ [a] := by
  rw [select, List.filterMap_cons_some h, List.reverse_cons, select]

variable {e : Entry} {u : QueueSummary} {g : Nat} (j : Journal)

theorem refusals_cons (e : Entry) (j : Journal) (g : Nat) :
    refusals (e :: j) g = j.refusals g + if e.isRefusalBy g then 1 else 0 := List.countP_cons

theorem rejections_cons (e : Entry) (j : Journal) (g : Nat) :
    rejections (e :: j) g = j.rejections g + if e.isRejectionBy g then 1 else 0 :=
  List.countP_cons

/-- Nothing is done with a queue by what is done with another one. -/
theorem counts_cons_of_ne (h : e.sink? ≠ some g) :
    accepted (e :: j) g = j.accepted g ∧ refusals (e :: j) g = j.refusals g ∧
      rejections (e :: j) g = j.rejections g := by
  rw [accepted_cons, refusals_cons, rejections_cons]
  cases e with
  | offered g' =>
    have hne : g' ≠ g := fun he => h (congrArg some he)
    simp [Entry.isAcceptedBy, Entry.isRefusalBy, Entry.isRejectionBy, hne]
  | finished g' =>
    have hne : g' ≠ g := fun he => h (congrArg some he)
    simp [Entry.isAcceptedBy, Entry.isRefusalBy, Entry.isRejectionBy, hne]
  | _ => simp [Entry.isAcceptedBy, Entry.isRefusalBy, Entry.isRejectionBy]

theorem counts_offered (g : Nat) (chunk : ByteArray) (isAccepted : Bool) :
    accepted (.offered g chunk isAccepted :: j) g = j.accepted g + (if isAccepted then 1 else 0) ∧
    refusals (.offered g chunk isAccepted :: j) g = j.refusals g + (if isAccepted then 0 else 1) ∧
    rejections (.offered g chunk isAccepted :: j) g = j.rejections g := by
  rw [accepted_cons, refusals_cons, rejections_cons]
  cases isAccepted <;> simp [Entry.isAcceptedBy, Entry.isRefusalBy, Entry.isRejectionBy]

theorem counts_finished (g : Nat) (rejection : Option String) :
    accepted (.finished g rejection :: j) g = j.accepted g ∧
    refusals (.finished g rejection :: j) g = j.refusals g ∧
    rejections (.finished g rejection :: j) g =
      j.rejections g + if rejection.isSome then 1 else 0 := by
  rw [accepted_cons, refusals_cons, rejections_cons]
  simp [Entry.isAcceptedBy, Entry.isRefusalBy, Entry.isRejectionBy]

theorem counts_eq_zero {j : Journal} (h : ∀ e ∈ j, e.sink? ≠ some g) :
    j.accepted g = 0 ∧ j.refusals g = 0 ∧ j.rejections g = 0 := by
  induction j with
  | nil => exact ⟨rfl, rfl, rfl⟩
  | cons e j ih =>
    obtain ⟨ha, hf, hj⟩ := counts_cons_of_ne j (h e List.mem_cons_self)
    rw [ha, hf, hj]
    exact ih fun e he => h e (List.mem_cons_of_mem _ he)

/-- Whether a queue balances depends on what was done with it. -/
theorem balances_congr {j' : Journal} (h : j'.accepted u.generation = j.accepted u.generation ∧
    j'.refusals u.generation = j.refusals u.generation ∧
    j'.rejections u.generation = j.rejections u.generation) : j'.Balances u ↔ j.Balances u := by
  obtain ⟨ha, hf, hj⟩ := h
  constructor
  · rintro ⟨hi, hr, hl⟩
    exact ⟨ha ▸ hi, hf ▸ hj ▸ hr, hj ▸ hl⟩
  · rintro ⟨hi, hr, hl⟩
    exact ⟨ha ▸ hi, hf ▸ hj ▸ hr, hj ▸ hl⟩

theorem balances_cons_iff (h : e.sink? ≠ some u.generation) :
    Balances (e :: j) u ↔ j.Balances u :=
  balances_congr j (counts_cons_of_ne j h)

theorem intake_cons_of_ne (h : e.sink? ≠ some u.generation) :
    intake (e :: j) u = j.intake u := by
  rw [intake, intake, (counts_cons_of_ne j h).2.1]

theorem summaries_closed (v : QueueSummary) :
    summaries (.queueEnded v :: j) = j.summaries ++ [v] :=
  select_cons_of_some (f := Entry.queueEnded?) rfl j

theorem generations_closed (v : QueueSummary) :
    generations (.queueEnded v :: j) = j.generations := select_cons_of_none rfl j

theorem balances_closed_iff {v : QueueSummary} : Balances (.queueEnded v :: j) u ↔ j.Balances u :=
  balances_cons_iff j (by rintro ⟨⟩)

theorem rejections_closed {v : QueueSummary} :
    rejections (.queueEnded v :: j) g = j.rejections g :=
  (counts_cons_of_ne j (by rintro ⟨⟩)).2.2

theorem intake_closed {v : QueueSummary} : intake (.queueEnded v :: j) u = j.intake u :=
  intake_cons_of_ne j (by rintro ⟨⟩)

end Cons

/-- Books in which all queues are closed and all chunks are accounted for. -/
structure Kept (b : Journal) (chunks : Nat) : Prop where
  known : ∀ e ∈ b, ∀ g, e.sink? = some g → g ∈ b.generations
  closed : b.summaries.map QueueSummary.generation = b.generations
  balanced : ∀ u ∈ b.summaries, b.Balances u
  chunks : chunks = (b.summaries.map b.intake).sum

theorem mem_generations_iff {j : Journal} {g : Nat} :
    g ∈ j.generations ↔ ∃ codecs, Entry.created g codecs ∈ j := by
  rw [generations, select, List.mem_reverse, List.mem_filterMap]
  constructor
  · rintro ⟨e, he, hg⟩
    obtain ⟨codecs, rfl⟩ := Entry.created?_eq_some hg
    exact ⟨codecs, he⟩
  · rintro ⟨codecs, hc⟩
    exact ⟨_, hc, rfl⟩

section Books

variable (j : Journal) (g : Nat)

theorem generations_books : j.books.generations = j.generations :=
  select_filter (fun e he => by cases e <;> first | rfl | cases he) j

theorem summaries_books : j.books.summaries = j.summaries :=
  select_filter (fun e he => by cases e <;> first | rfl | cases he) j

theorem received_books (p : ByteArray → Bool) : j.books.received p = j.received p :=
  countP_filter (fun e he => by cases e <;> first | rfl | cases he) j

theorem counts_books : j.books.accepted g = j.accepted g ∧ j.books.refusals g = j.refusals g ∧
    j.books.rejections g = j.rejections g :=
  ⟨countP_filter (fun e he => by cases e <;> first | rfl | cases he) j,
    countP_filter (fun e he => by cases e <;> first | rfl | cases he) j,
    countP_filter (fun e he => by cases e <;> first | rfl | cases he) j⟩

theorem balances_books_iff {u : QueueSummary} : j.books.Balances u ↔ j.Balances u :=
  balances_congr j (counts_books j u.generation)

theorem intake_books : j.books.intake = j.intake := by
  funext u
  rw [intake, intake, (counts_books j u.generation).2.1]

end Books

namespace Kept

variable {b : Journal} {u u' : QueueSummary} {e : Entry} {chunks chunks' : Nat}

theorem nil : Kept [] 0 := ⟨nofun, rfl, nofun, rfl⟩

/-- Something is done with the queue that is closed last, before it is closed. -/
theorem update (h : Kept (.queueEnded u :: b) chunks) (hn : b.generations.Nodup)
    (hg : u'.generation = u.generation) (hc : e.created? = none) (hq : e.queueEnded? = none)
    (hs : ∀ g, e.sink? = some g → g = u.generation) (hu : Balances (e :: b) u')
    (hchunks : chunks' + b.intake u = chunks + intake (e :: b) u') :
    Kept (.queueEnded u' :: e :: b) chunks' := by
  have hsummaries : summaries (.queueEnded u' :: e :: b) = b.summaries ++ [u'] := by
    rw [summaries_closed, summaries, select_cons_of_none hq, summaries]
  have hgenerations : generations (.queueEnded u' :: e :: b) = b.generations := by
    rw [generations_closed, generations, select_cons_of_none hc, generations]
  obtain ⟨hknown, hclosed, hbalanced, hsum⟩ := h
  rw [summaries_closed] at hclosed hbalanced hsum
  have hclosed' : b.summaries.map QueueSummary.generation ++ [u.generation] = b.generations := by
    rw [List.map_append, generations_closed] at hclosed
    exact hclosed
  -- Another queue is not touched, since no two of them have one generation.
  have hother {v : QueueSummary} (hv : v ∈ b.summaries) :
      v.generation ≠ u.generation ∧ e.sink? ≠ some v.generation := by
    have hne : v.generation ≠ u.generation := by
      rw [← hclosed', List.nodup_append] at hn
      exact hn.2.2 _ (List.mem_map_of_mem hv) _ (List.mem_singleton.mpr rfl)
    exact ⟨hne, fun he => hne (hs _ he)⟩
  constructor
  case known =>
    intro e' he' g hg'
    rw [hgenerations, ← hclosed']
    rcases List.mem_cons.mp he' with rfl | he'
    · cases hg'
    · rcases List.mem_cons.mp he' with rfl | he'
      · simp [hs g hg']
      · rw [hclosed']
        exact hknown e' (List.mem_cons_of_mem _ he') g hg'
  case closed =>
    rw [hsummaries, hgenerations, List.map_append, ← hclosed', ← hg]
    rfl
  case balanced =>
    rw [hsummaries]
    intro v hv
    rcases List.mem_append.mp hv with hv | hv
    · rw [balances_closed_iff, balances_cons_iff _ (hother hv).2]
      exact (balances_closed_iff b).mp (hbalanced v (List.mem_append_left _ hv))
    · rw [List.mem_singleton.mp hv, balances_closed_iff]
      exact hu
  case chunks =>
    have hsame : b.summaries.map (intake (.queueEnded u' :: e :: b)) =
        b.summaries.map (intake (.queueEnded u :: b)) := by
      apply List.map_congr_left
      intro v hv
      rw [intake_closed, intake_cons_of_ne _ (hother hv).2, intake_closed]
    rw [List.map_append, List.sum_append] at hsum
    rw [hsummaries, List.map_append, List.sum_append, hsame]
    simp only [List.map_cons, List.map_nil, List.sum_cons, List.sum_nil, intake_closed] at hsum ⊢
    omega

/-- The queue that is closed last balances before it is closed. -/
theorem last (h : Kept (.queueEnded u :: b) chunks) : b.Balances u := by
  have hu : u ∈ summaries (.queueEnded u :: b) := by
    rw [summaries_closed]
    exact List.mem_append_right _ (List.mem_singleton.mpr rfl)
  exact (balances_closed_iff b).mp (h.balanced u hu)

/-- A frame is entered, with a queue that is closed later or without. -/
theorem receive {later : Journal} (h : Kept (later ++ b) chunks) (f : ByteArray) :
    Kept (later ++ .received f :: b) chunks := by
  have hselect {α : Type} {p : Entry → Option α} (hp : p (.received f) = none) :
      select (later ++ .received f :: b) p = select (later ++ b) p := by
    rw [select_append, select_append, select_cons_of_none hp]
  have hcount {p : Entry → Bool} (hp : p (.received f) = false) :
      List.countP p (later ++ .received f :: b) = List.countP p (later ++ b) := by
    rw [List.countP_append, List.countP_append, List.countP_cons_of_neg (by simp [hp])]
  have hsummaries : summaries (later ++ .received f :: b) = summaries (later ++ b) := hselect rfl
  have hgenerations : generations (later ++ .received f :: b) = generations (later ++ b) :=
    hselect rfl
  have hintake : intake (later ++ .received f :: b) = intake (later ++ b) := by
    funext u
    rw [intake, intake, refusals, refusals, hcount rfl]
  obtain ⟨hknown, hclosed, hbalanced, hsum⟩ := h
  constructor
  case known =>
    intro e he g hg
    rw [hgenerations]
    rcases List.mem_append.mp he with he | he
    · exact hknown e (List.mem_append_left _ he) g hg
    · rcases List.mem_cons.mp he with rfl | he
      · cases hg
      · exact hknown e (List.mem_append_right _ he) g hg
  case closed => rw [hsummaries, hgenerations, hclosed]
  case balanced =>
    rw [hsummaries]
    intro u hu
    exact (balances_congr _ ⟨hcount rfl, hcount rfl, hcount rfl⟩).mpr (hbalanced u hu)
  case chunks => rw [hsummaries, hintake, hsum]

/-- A queue is created for a new generation, and nothing was done with it. -/
theorem create (h : Kept b chunks) (codecs : Codecs) {g : Nat} (hg : g ∉ b.generations) :
    Kept (.queueEnded (AppendQueue.create codecs g).summary :: .created g codecs :: b)
      chunks := by
  let u : QueueSummary := (AppendQueue.create codecs g).summary
  have hsummaries : summaries (.queueEnded u :: .created g codecs :: b) = b.summaries ++ [u] := by
    rw [summaries_closed, summaries, select_cons_of_none rfl, summaries]
  have hgenerations : generations (.queueEnded u :: .created g codecs :: b) =
      b.generations ++ [g] := by
    rw [generations_closed, generations, select_cons_of_some (f := Entry.created?) rfl,
      generations]
  have hcreating (v : QueueSummary) : (Entry.created g codecs).sink? ≠ some v.generation := by
    rintro ⟨⟩
  obtain ⟨ha, hf, hj⟩ : b.accepted u.generation = 0 ∧ b.refusals u.generation = 0 ∧
      b.rejections u.generation = 0 := counts_eq_zero fun e he hs => hg (h.known e he g hs)
  constructor
  case known =>
    intro e he g' hg'
    rw [hgenerations]
    rcases List.mem_cons.mp he with rfl | he
    · cases hg'
    · rcases List.mem_cons.mp he with rfl | he
      · cases hg'
      · exact List.mem_append_left _ (h.known e he g' hg')
  case closed =>
    rw [hsummaries, hgenerations, List.map_append, h.closed]
    rfl
  case balanced =>
    rw [hsummaries]
    intro v hv
    rw [balances_closed_iff, balances_cons_iff _ (hcreating v)]
    rcases List.mem_append.mp hv with hv | hv
    · exact h.balanced v hv
    · rw [List.mem_singleton.mp hv]
      exact ⟨ha.symm, by rw [hf, hj]; rfl, by rw [hj]; exact Nat.zero_le _⟩
  case chunks =>
    have hsame : intake (.queueEnded u :: .created g codecs :: b) = b.intake := by
      funext v
      rw [intake_closed, intake_cons_of_ne _ (hcreating v)]
    have hnone : b.intake u = 0 := by
      rw [intake, hf]
      rfl
    rw [hsummaries, hsame, List.map_append, List.sum_append, ← h.chunks]
    simp [hnone]

end Kept

end Journal

/-! ## Queues -/

section Books

variable {out : Surface σ} {s s' : Supervisor σ} {q : AppendQueue} {f : ByteArray}
  {codecs : Codecs}

theorem Supervisor.books_of_none (h : s.queue = none) : s.books = s.journal.books := by
  rw [books, h]
  rfl

theorem Supervisor.books_of_some (h : s.queue = some q) :
    s.books = .queueEnded q.summary :: s.journal.books := by
  rw [books, h]
  rfl

theorem Supervisor.offerTo_books (g : Nat) (chunk : ByteArray) (accepted : Bool) :
    (s.offerTo out g chunk accepted).journal.books =
      .offered g chunk accepted :: s.journal.books := Journal.books_heard _ _

theorem Hears.books (h : Hears out s s') : s'.books = s.books := by
  obtain ⟨notices, _, hj⟩ := h.heard
  rw [Supervisor.books, Supervisor.books, h.queue, hj, Journal.books_heard]

theorem Hears.totals (h : Hears out s s') : s'.totals = s.totals := (Nears.hears_stays h).totals

/-- A frame is entered before the queue is closed that an announcement gives up. -/
theorem Supervisor.announced_books (ha : s.Alive)
    (h : Hears out ((s.register f).announce out codecs) s') :
    s'.queue = none ∧ s'.totals = (s.register f).totals ∧
      s'.books = (s.register f).books := by
  have hdestroy : Passes (s.register f) ((s.register f).destroyQueue out) [] := .destroyQueue ha
  refine ⟨h.queue.trans (destroyQueue_queue out _), ?_, h.books.trans hdestroy.books⟩
  exact h.totals.trans (Stays.announce out codecs _).totals

end Books

theorem Totals.receive_balance (t : Totals) (queued : Bool) (f : ByteArray) :
    (t.receive queued (Content.ofFrame f)).connects = t.connects ∧
    (t.receive queued (Content.ofFrame f)).frames + t.chunks + t.droppedChunks +
      t.malformedFrames = t.frames + Content.answers (Content.ofFrame f) +
      (t.receive queued (Content.ofFrame f)).chunks +
      (t.receive queued (Content.ofFrame f)).droppedChunks +
      (t.receive queued (Content.ofFrame f)).malformedFrames := by
  cases Content.ofFrame f with
  | error => simp [receive, Content.answers]; omega
  | ok content =>
    cases content with
    | media => cases queued <;> simp [receive, Content.answers] <;> omega
    | codecs | metadata => simp [receive, Content.answers]

theorem Totals.receive_media (t : Totals) (queued : Bool) (f : ByteArray) :
    (t.receive queued (Content.ofFrame f)).chunks +
      (t.receive queued (Content.ofFrame f)).droppedChunks =
      t.chunks + t.droppedChunks + [f].countP Content.isMedia := by
  cases hf : Content.ofFrame f with
  | error => simp [receive, Content.isMedia, hf]
  | ok content =>
    cases content with
    | media =>
      cases queued <;> simp [receive, Content.isMedia, hf] <;> omega
    | codecs | metadata => simp [receive, Content.isMedia, hf]

namespace Supervisor

/-- The books are kept, and while an append is in flight not all that was issued was rejected. -/
structure Booked (s : Supervisor σ) : Prop where
  kept : s.books.Kept s.totals.chunks
  late : ∀ q, s.queue = some q → q.state = .appending →
    s.books.rejections q.generation < q.issued

namespace Booked

variable {out : Surface σ} {s s' : Supervisor σ} {q : AppendQueue} {f : ByteArray}

theorem congr (h : s.Booked) (hb : s'.books = s.books) (hq : s'.queue = s.queue ∨ s'.queue = none)
    (ht : s'.totals.chunks = s.totals.chunks) : s'.Booked := by
  refine ⟨by rw [hb, ht]; exact h.kept, fun q hq' => ?_⟩
  rw [hb]
  rcases hq with hq | hq
  · exact h.late q (hq ▸ hq')
  · cases hq.symm.trans hq'

/-- A frame is entered, and the queue stays as it is or is given up. -/
theorem receive (h : s.Booked) (hb : s'.books = (s.register f).books)
    (hq : s'.queue = s.queue ∨ s'.queue = none) (ht : s'.totals.chunks = s.totals.chunks) :
    s'.Booked := by
  refine ⟨?_, fun q hq' => ?_⟩
  · rw [hb, ht]
    exact h.kept.receive f
  · have hsame : s'.books.rejections q.generation = s.books.rejections q.generation := by
      rw [hb, Journal.rejections, Journal.rejections, books, books, List.countP_append,
        List.countP_append]
      rfl
    rw [hsame]
    rcases hq with hq | hq
    · exact h.late q (hq ▸ hq')
    · cases hq.symm.trans hq'

/-- Something is done with the queue at work. -/
theorem update {q' : AppendQueue} {e : Entry} (h : s.Booked) (hacc : s.Accounted)
    (hq : s.queue = some q) (hq' : s'.queue = some q') (hg : q'.generation = q.generation)
    (hb : s'.journal.books = e :: s.journal.books) (hc : e.created? = none)
    (he : e.queueEnded? = none) (hs : ∀ g, e.sink? = some g → g = q.generation)
    (hu : Journal.Balances (e :: s.journal.books) q'.summary)
    (hchunks : s'.totals.chunks + s.journal.books.intake q.summary =
      s.totals.chunks + Journal.intake (e :: s.journal.books) q'.summary)
    (hlate : q'.state = .appending →
      Journal.rejections (e :: s.journal.books) q.generation < q'.issued) : s'.Booked := by
  have hkept := h.kept
  rw [books_of_some hq] at hkept
  have hn : s.journal.books.generations.Nodup := by
    rw [Journal.generations_books]
    exact hacc.orderly.generations_increase.imp Nat.ne_of_lt
  have hb' : s'.books = .queueEnded q'.summary :: e :: s.journal.books := by
    rw [books_of_some hq', hb]
  refine ⟨?_, fun q'' hq'' happending => ?_⟩
  · rw [hb']
    exact hkept.update hn hg hc he hs hu hchunks
  · obtain rfl : q' = q'' := Option.some.inj (hq'.symm.trans hq'')
    rw [hb', hg, Journal.rejections_closed]
    exact hlate happending

theorem playAct (h : s.Booked) (ha : s.Alive) (hacc : s.Accounted) (hp : PlayAct out s s') :
    s'.Booked := by
  have hlast {q : AppendQueue} (hq : s.queue = some q) : s.journal.books.Balances q.summary := by
    have hkept := h.kept
    rw [books_of_some hq] at hkept
    exact hkept.last
  cases hp with
  | hear hears => exact h.congr hears.books (.inl hears.queue) (by rw [hears.totals])
  | seek | ignore => exact h.congr rfl (.inl rfl) rfl
  | malformed | publish | withhold | stray => exact h.receive rfl (.inl rfl) rfl
  | decline _ _ hears | falter _ _ hears =>
    obtain ⟨hq, ht, hb⟩ := announced_books ha hears
    have hchunks := congrArg Totals.chunks ht
    exact h.receive hb (.inr hq) hchunks
  | @install s₁ f codecs _ _ hears =>
    obtain ⟨hq, ht, hb⟩ := announced_books ha hears
    have hchunks := congrArg Totals.chunks ht
    have hbooked : s₁.Booked := h.receive hb (.inr hq) hchunks
    -- Its number is above those of all queues before.
    have hfresh : s₁.generation ∉ s₁.journal.books.generations := by
      rw [Journal.generations_books]
      intro hg
      obtain ⟨codecs', hc⟩ := Journal.mem_generations_iff.mp hg
      exact Nat.lt_irrefl _ ((hacc.announce ha hears).2.2 _ codecs' hc)
    have hkept := hbooked.kept
    rw [books_of_none hq] at hkept
    refine ⟨hkept.create codecs hfresh, ?_⟩
    rintro q ⟨⟩ happending
    cases happending
  | @enqueue f chunk q _ _ hq =>
    obtain ⟨hi, hr, hl⟩ := hlast hq
    refine h.update hacc hq rfl rfl rfl rfl rfl nofun ?_ ?_ ?_
    · exact (Journal.balances_cons_iff _ (by rintro ⟨⟩)).mpr ⟨hi, hr, hl⟩
    · rw [Journal.intake_cons_of_ne _ (by rintro ⟨⟩)]
      simp only [Journal.intake, AppendQueue.summary, List.length_append, List.length_singleton]
      omega
    · intro happending
      have hlate := h.late q hq happending
      rw [books_of_some hq, Journal.rejections_closed] at hlate
      exact hlate
  | @accept q chunk rest _ hq _ hp =>
    obtain ⟨hi, hr, hl⟩ := hlast hq
    obtain ⟨ha, hf, hj⟩ := Journal.counts_offered s.journal.books q.generation chunk true
    simp only [AppendQueue.summary] at hi hr hl
    refine h.update hacc hq rfl rfl (offerTo_books _ _ _) rfl rfl (by rintro _ ⟨⟩; rfl) ?_ ?_ ?_
    · refine ⟨?_, ?_, ?_⟩ <;> simp only [AppendQueue.summary, ha, hf, hj, if_true] <;> omega
    · simp only [Journal.intake, AppendQueue.summary, hf, hp, List.length_cons, if_true]
      change s.totals.chunks + _ = _
      omega
    · intro _
      simp only [hj]
      omega
  | @refuse q chunk rest why _ hq hi hp =>
    obtain ⟨hi', hr, hl⟩ := hlast hq
    obtain ⟨ha, hf, hj⟩ := Journal.counts_offered s.journal.books q.generation chunk false
    simp only [AppendQueue.summary] at hi' hr hl
    refine h.update hacc hq rfl rfl (offerTo_books _ _ _) rfl rfl (by rintro _ ⟨⟩; rfl) ?_ ?_ ?_
    · refine ⟨?_, ?_, ?_⟩ <;>
        simp only [AppendQueue.summary, ha, hf, hj, Bool.false_eq_true, if_false] <;> omega
    · simp only [Journal.intake, AppendQueue.summary, hf, hp, List.length_cons, Bool.false_eq_true,
        if_false]
      change s.totals.chunks + _ = _
      omega
    · intro happending
      cases hi.symm.trans happending
  | @finish q n rest _ hq hg happending =>
    obtain ⟨hi, hr, hl⟩ := hlast hq
    obtain ⟨ha, hf, hj⟩ := Journal.counts_finished s.journal.books n.generation n.rejection
    -- One append is in flight, which was issued and not rejected yet.
    have hlate := h.late q hq happending
    rw [books_of_some hq, Journal.rejections_closed] at hlate
    simp only [AppendQueue.summary, hg] at hi hr hl hlate
    refine h.update hacc hq rfl rfl rfl rfl rfl (by rintro _ ⟨⟩; exact hg.symm) ?_ ?_ nofun
    · refine ⟨?_, ?_, ?_⟩
      · simp only [AppendQueue.summary, hg, ha]
        exact hi
      · simp only [AppendQueue.summary, hg, hf, hj]
        split <;> omega
      · simp only [AppendQueue.summary, hg, hj]
        split <;> omega
    · simp only [Journal.intake, AppendQueue.summary, hg, hf]
      rfl

theorem playActs (h : s.Booked) (ha : s.Alive) (hacc : s.Accounted) (hp : PlayActs out s s') :
    s'.Booked := by
  have hall : s'.Alive ∧ s'.Accounted ∧ s'.Booked := by
    induction hp with
    | refl => exact ⟨ha, hacc, h⟩
    | tail _ act ih =>
      obtain ⟨ha, hacc, h⟩ := ih
      exact ⟨act.alive ha, .playAct ha act hacc, h.playAct ha hacc act⟩
  exact hall.2.2

theorem handled {now : Nat} {i : Input} (h : s.Booked) (ha : s.Alive) (hacc : s.Accounted)
    (hh : Handled out s now i s') (hp : s'.phase ≠ .crashed) : s'.Booked := by
  cases hh with
  | frame _ _ hh | notice _ _ hh => exact h.playActs ha hacc (hh.acts hp)
  | passage hh => exact h.congr hh.books hh.queue (by rw [hh.totals])

end Booked

/-! ## Frames -/

/-- Every frame is counted once, by what it carries. -/
structure Counted (s : Supervisor σ) : Prop where
  frames : s.totals.frames = s.books.received fun _ => true
  media : s.totals.chunks + s.totals.droppedChunks = s.books.received Content.isMedia
  malformed : s.totals.malformedFrames = s.books.received Content.malformed

theorem received_books (s : Supervisor σ) (p : ByteArray → Bool) :
    s.books.received p = s.journal.books.received p := by
  cases hq : s.queue with
  | none => rw [books_of_none hq]
  | some q =>
    rw [books_of_some hq]
    rfl

namespace Counted

variable {out : Surface σ} {s s' : Supervisor σ} {f : ByteArray}

theorem congr (h : s.Counted) (hb : ∀ p, s'.books.received p = s.books.received p)
    (ht : s'.totals = { s.totals with connects := s'.totals.connects }) : s'.Counted := by
  refine ⟨?_, ?_, ?_⟩
  · rw [ht, hb]
    exact h.frames
  · rw [ht, hb]
    exact h.media
  · rw [ht, hb]
    exact h.malformed

theorem receive (h : s.Counted)
    (hb : ∀ p, s'.books.received p = (s.register f).books.received p)
    (ht : s'.totals = s.totals.receive s.queue.isSome (Content.ofFrame f)) : s'.Counted := by
  have hregister (p : ByteArray → Bool) :
      s'.books.received p = s.books.received p + [f].countP p := by
    rw [hb, received_books, received_books, Journal.received, Journal.received,
      List.countP_singleton]
    exact List.countP_cons
  refine ⟨?_, ?_, ?_⟩
  · rw [ht, hregister, Totals.receive_frames, h.frames]
    rfl
  · rw [ht, hregister, Totals.receive_media, h.media]
  · rw [ht, hregister, Totals.receive_malformedFrames, h.malformed]

theorem playAct (h : s.Counted) (ha : s.Alive) (hp : PlayAct out s s') : s'.Counted := by
  cases hp with
  | hear hears => exact h.congr (fun p => by rw [hears.books]) (by rw [hears.totals])
  | seek | ignore => exact h.congr (fun p => rfl) rfl
  | malformed _ hf | withhold _ hf | publish _ hf =>
    exact h.receive (fun p => rfl) (by rw [hf]; rfl)
  | stray _ hf hq => exact h.receive (fun p => rfl) (by rw [hf, hq]; rfl)
  | enqueue _ hf hq =>
    exact h.receive (fun p => by rw [received_books, received_books]) (by rw [hf, hq]; rfl)
  | falter _ hf hears =>
    obtain ⟨_, ht, hb⟩ := announced_books ha hears
    exact h.receive (fun p => by rw [hb]) (by rw [hf]; exact ht)
  | @decline s₁ f _ _ _ hf hears | @install s₁ f _ _ hf hears =>
    obtain ⟨_, ht, hb⟩ := announced_books ha hears
    refine h.receive (fun p => ?_) (by rw [hf]; exact ht)
    have hsame : s₁.journal.books.received p = (s.register f).books.received p := by
      rw [← received_books, hb]
    exact (received_books _ p).trans hsame
  | accept _ hq | refuse _ hq =>
    refine h.congr (fun p => ?_) rfl
    rw [received_books, received_books]
    exact (congrArg (Journal.received · p) (offerTo_books _ _ _)).trans rfl
  | finish _ hq =>
    refine h.congr (fun p => ?_) rfl
    rw [received_books, received_books]
    rfl

theorem playActs (h : s.Counted) (ha : s.Alive) (hp : PlayActs out s s') : s'.Counted := by
  have hall : s'.Alive ∧ s'.Counted := by
    induction hp with
    | refl => exact ⟨ha, h⟩
    | tail _ act ih => exact ⟨act.alive ih.1, ih.2.playAct ih.1 act⟩
  exact hall.2

theorem handled {now : Nat} {i : Input} (h : s.Counted) (ha : s.Alive)
    (hh : Handled out s now i s') (hp : s'.phase ≠ .crashed) : s'.Counted := by
  cases hh with
  | frame _ _ hh | notice _ _ hh => exact h.playActs ha (hh.acts hp)
  | passage hh => exact h.congr (fun p => by rw [hh.books]) (by rw [hh.totals])

end Counted

end Supervisor

/-! ## Events and connects -/

namespace Event

def isConnected : Event → Bool
  | .connected _ => true
  | _ => false

/-- Events that answer an announcement. -/
def isCodec : Event → Bool
  | .codecChanged _ | .codecUnsupported _ _ => true
  | _ => false

def isMetadata : Event → Bool
  | .metadata _ => true
  | _ => false

theorem isConnected_of_isAnswer {e : Event} (h : e.isAnswer = true) : e.isConnected = false := by
  cases e with
  | codecChanged | codecUnsupported | metadata => rfl
  | _ => cases h

theorem countP_isAnswer (events : List Event) :
    events.countP isAnswer = events.countP isCodec + events.countP isMetadata := by
  induction events with
  | nil => rfl
  | cons e events ih =>
    rw [List.countP_cons, List.countP_cons, List.countP_cons, ih]
    cases e <;> simp [isAnswer, isCodec, isMetadata] <;> omega

end Event

namespace Entry

def isConnectFailed : Entry → Bool
  | .connectFailed _ => true
  | _ => false

def isAbandoned : Entry → Bool
  | .abandoned _ => true
  | _ => false

def ended? : Entry → Option Totals
  | .ended t => some t
  | _ => none

end Entry

/-- Connects that came to something, be it that they were given up. -/
def Journal.resolved (j : Journal) : Nat :=
  j.events.countP Event.isConnected + j.countP Entry.isConnectFailed + j.countP Entry.isAbandoned

def Phase.pending (p : Phase) : Nat := if p = .connecting then 1 else 0

namespace Supervisor

/-- What a passage from one phase to another adds to the accounts. -/
structure Adds (told : Journal) (phase phase' : Phase) (totals : Totals) : Prop where
  connects : told.countP Entry.isConnecting + phase.pending = told.resolved + phase'.pending
  answers : told.events.countP Event.isAnswer = 0
  abandoned : told.countP Entry.isAbandoned ≤ if phase' = .ended then 1 else 0
  ended : told.select Entry.ended? = if phase' = .ended then [totals] else []
  unconnected : phase' = .ended → told.countP Entry.isConnecting = 0

theorem Passage.adds {s : Supervisor σ} {now : Nat} {i : Input} {phase : Phase} {told : Journal}
    (h : Passage s now i phase told) (hne : phase ≠ .crashed) :
    Adds told s.phase phase s.totals := by
  cases h with
  | begin hp | reconnect hp | opened hp | closing hp =>
    rw [hp]
    exact ⟨rfl, rfl, Nat.zero_le _, rfl, nofun⟩
  | lost hl =>
    cases hl with
    | failed _ hp | closed hp | broken _ hp =>
      rw [hp]
      exact ⟨rfl, rfl, Nat.zero_le _, rfl, nofun⟩
  | retired hr =>
    cases hr with
    | unstarted hp | overdue hp | idle hp | closed hp =>
      rw [hp]
      exact ⟨rfl, rfl, Nat.zero_le _, rfl, fun _ => rfl⟩
    | abandoned hp =>
      rw [hp]
      exact ⟨rfl, rfl, Nat.le_refl 1, rfl, fun _ => rfl⟩
    | lost hl =>
      cases hl with
      | failed _ hp | closed hp | broken _ hp =>
        rw [hp]
        exact ⟨rfl, rfl, Nat.zero_le _, rfl, fun _ => rfl⟩
  | broken => exact absurd rfl hne

theorem Tells.countP_abandoned {s s' : Supervisor σ} {told : Journal} (h : Tells s s' told) :
    s'.journal.countP Entry.isAbandoned =
      told.countP Entry.isAbandoned + s.journal.countP Entry.isAbandoned :=
  h.countP fun e he => by cases e <;> first | rfl | cases he

theorem Tells.resolved {s s' : Supervisor σ} {told : Journal} (h : Tells s s' told) :
    s'.journal.resolved = s.journal.resolved + told.resolved := by
  have hfailed : s'.journal.countP Entry.isConnectFailed =
      told.countP Entry.isConnectFailed + s.journal.countP Entry.isConnectFailed :=
    h.countP fun e he => by cases e <;> first | rfl | cases he
  rw [Journal.resolved, h.events, List.countP_append, hfailed, h.countP_abandoned,
    Journal.resolved, Journal.resolved]
  omega

theorem Tells.select_ended {s s' : Supervisor σ} {told : Journal} (h : Tells s s' told) :
    s'.journal.select Entry.ended? = s.journal.select Entry.ended? ++ told.select Entry.ended? :=
  h.select fun e he => by cases e <;> first | rfl | cases he

/-- While a connection is open, nothing becomes of connects. -/
theorem Tells.unresolved {out : Surface σ} {s s' : Supervisor σ} (h : Plays out s s') :
    s'.journal.resolved = s.journal.resolved ∧
    s'.journal.countP Entry.isAbandoned = s.journal.countP Entry.isAbandoned ∧
    s'.journal.select Entry.ended? = s.journal.select Entry.ended? := by
  obtain ⟨answers, ha, dropped, htells⟩ := Tells.plays h
  have hconnected : answers.countP Event.isConnected = 0 := by
    rw [List.countP_eq_zero]
    intro e he
    simp [Event.isConnected_of_isAnswer (ha e he).1]
  have hnone (p : Entry → Bool) (hd : ∀ n, p (.transportDropped n) = false)
      (he : ∀ e, p (.event e) = false) : List.countP p
        (dropped.map .transportDropped ++ answers.reverse.map .event) = 0 := by
    simp [List.countP_eq_zero, hd, he]
  have hfailed := hnone Entry.isConnectFailed (fun _ => rfl) fun _ => rfl
  have habandoned := hnone Entry.isAbandoned (fun _ => rfl) fun _ => rfl
  have hresolved : Journal.resolved
      (dropped.map .transportDropped ++ answers.reverse.map .event) = 0 := by
    rw [Journal.resolved, hfailed, habandoned, Journal.events_append,
      Journal.events_transportDropped, Journal.events_emitted, List.reverse_reverse,
      List.append_nil, hconnected]
  refine ⟨?_, ?_, ?_⟩
  · rw [htells.resolved, hresolved, Nat.add_zero]
  · rw [htells.countP_abandoned, habandoned, Nat.zero_add]
  · rw [htells.select_ended, Journal.select_append]
    simp [Journal.select, Entry.ended?, List.filterMap_map]

/-- Frames and connects are counted as the events and the connects tell, and at the end the totals
are logged. -/
structure Squared (s : Supervisor σ) : Prop where
  answers : s.totals.frames = s.journal.events.countP Event.isAnswer + s.totals.chunks +
    s.totals.droppedChunks + s.totals.malformedFrames
  connects : s.totals.connects = s.journal.resolved + s.phase.pending
  abandoned : s.journal.countP Entry.isAbandoned ≤ if s.phase = .ended then 1 else 0
  ended : s.journal.select Entry.ended? = if s.phase = .ended then [s.totals] else []

namespace Squared

variable {out : Surface σ} {s s' : Supervisor σ} {now : Nat} {i : Input}

theorem passage {told : Journal} (h : s.Squared) (hpasses : Passes s s' told)
    (hp : Passage s now i s'.phase told) (hne : s'.phase ≠ .crashed) (he : s.phase ≠ .ended) :
    s'.Squared := by
  obtain ⟨hconnects, hanswers, habandoned, hended, hunconnected⟩ := hp.adds hne
  have hbefore := h.abandoned
  have hlogged := h.ended
  rw [if_neg he] at hbefore hlogged
  constructor
  case answers =>
    rw [hpasses.events, List.countP_append, hanswers, hpasses.totals]
    exact h.answers
  case connects =>
    have hcount : s'.totals.connects = s.totals.connects + told.countP Entry.isConnecting := by
      rw [hpasses.totals]
    have hsquared := h.connects
    rw [hcount, hpasses.resolved]
    omega
  case abandoned =>
    rw [hpasses.countP_abandoned]
    omega
  case ended =>
    rw [hpasses.select_ended, hlogged, hended]
    -- Nothing is counted any more on the way to the end, so what is logged is what remains.
    split
    · rename_i hphase
      rw [hpasses.totals_eq (hunconnected hphase)]
      rfl
    · rfl

/-- A frame is answered by an event, or counted as what it is. -/
theorem frame {f : ByteArray} (h : s.Squared) (hplays : Plays out s s') (hp : s.phase = .waiting)
    (hframe : s.Receives f s') : s'.Squared := by
  obtain ⟨_, told, hlength, hanswer, hstays⟩ := hframe
  obtain ⟨hresolved, habandoned, hended⟩ := Tells.unresolved hplays
  obtain ⟨hconnects, hbalance⟩ := s.totals.receive_balance s.queue.isSome f
  have hphase : s'.phase = s.phase := hstays.abreast.phase
  have htotals : s'.totals = s.totals.receive s.queue.isSome (Content.ofFrame f) := hstays.totals
  have hevents : s'.journal.events = s.journal.events ++ told := hstays.events
  constructor
  case answers =>
    have htold : told.countP Event.isAnswer = told.length := List.countP_eq_length.mpr hanswer
    have hsquared := h.answers
    rw [hevents, List.countP_append, htold, hlength, htotals]
    omega
  case connects =>
    rw [hresolved, hphase, ← h.connects, htotals]
    exact hconnects
  case abandoned =>
    rw [habandoned, hphase]
    exact h.abandoned
  case ended =>
    have hlogged := h.ended
    rw [if_neg (by simp [hp])] at hlogged
    rw [hended, hphase, hlogged, if_neg (by simp [hp])]

theorem notice (h : s.Squared) (hplays : Plays out s s') (hstays : Stays s s' []) :
    s'.Squared := by
  obtain ⟨hresolved, habandoned, hended⟩ := Tells.unresolved hplays
  have hphase : s'.phase = s.phase := hstays.abreast.phase
  constructor
  case answers =>
    rw [hstays.totals, hstays.events, List.append_nil]
    exact h.answers
  case connects =>
    rw [hstays.totals, hresolved, hphase]
    exact h.connects
  case abandoned =>
    rw [habandoned, hphase]
    exact h.abandoned
  case ended =>
    rw [hended, hstays.totals, hphase]
    exact h.ended

theorem handled (h : s.Squared) (hh : Handled out s now i s') (hne : s'.phase ≠ .crashed)
    (he : s.phase ≠ .ended) : s'.Squared := by
  cases hh with
  | @frame f hp ht hplays =>
    cases hr : s.halted with
    | true =>
      have hsame : s.handleFrame out f = s := by rw [handleFrame, hr, if_pos rfl]
      rwa [hsame]
    | false =>
      cases Receives.frame out f hp hr with
      | well hframe => exact h.frame hplays hp hframe
      | down _ hdown => exact absurd hdown hne
  | @notice n rest hp hn hplays =>
    have htaken : Stays s { s with notices := rest } [] := .takeNotices s rest
    cases Ends.notice out n { s with notices := rest } with
    | well hstays => exact h.notice hplays (htaken.trans hstays)
    | down _ hdown => exact absurd hdown hne
  | passage hpasses hp => exact h.passage hpasses hp hne he

theorem idles (h : s.Squared) (hi : Idles s s') : s'.Squared := by
  have hphase : s'.phase = s.phase := hi.phase
  have htotals : s'.totals = s.totals := hi.passes.totals
  constructor
  case answers =>
    rw [htotals, hi.events]
    exact h.answers
  case connects =>
    rw [htotals, hphase, hi.passes.resolved]
    exact h.connects
  case abandoned =>
    rw [hphase, hi.passes.countP_abandoned]
    simpa using h.abandoned
  case ended =>
    rw [hphase, htotals, hi.passes.select_ended]
    exact (List.append_nil _).trans h.ended

end Squared

/-- All accounts of a session that did not break down. -/
structure Squares (s : Supervisor σ) : Prop where
  booked : s.Booked
  counted : s.Counted
  squared : s.Squared

theorem Squares.idles {s s' : Supervisor σ} (h : s.Squares) (hi : Idles s s') : s'.Squares :=
  ⟨h.booked.congr hi.passes.books (.inl hi.queue) (by rw [hi.passes.totals]),
    h.counted.congr (fun p => by rw [hi.passes.books]) (by rw [hi.passes.totals]),
    h.squared.idles hi⟩

end Supervisor

theorem Admits.running {s : Supervisor σ} {now : Nat} {i : Input} (h : Admits s now i) :
    s.phase ≠ .ended ∧ s.phase ≠ .crashed := by
  cases h with
  | stop hp => rcases hp with hp | hp <;> simp [hp]
  | begin hp | reconnect hp | notice hp | connected hp | connectFailed _ hp | received _ hp
  | closed hp | connectBroken hp | transportBroken hp | closeBroken hp => simp [hp]

theorem Reachable.squares {out : Surface σ} {m : Moment σ} (h : Reachable out m)
    (hp : m.supervisor.phase ≠ .crashed) : m.supervisor.Squares := by
  induction h with
  | spawn => exact ⟨⟨.nil, nofun⟩, ⟨rfl, rfl, rfl⟩, ⟨rfl, rfl, Nat.zero_le _, rfl⟩⟩
  | @step m _ hm step ih =>
    cases step.takes hm.sound with
    | idle hi => exact (ih (hi.phase ▸ hp)).idles hi
    | handle stop hi hs hh =>
      have hstopped : Reachable out (m.update (stopIf · stop)) := by
        cases stop with
        | false => exact hm
        | true => exact hm.step (.stop m)
      -- Only a session that runs handles anything, so its accounts were in order before.
      obtain ⟨hended, hcrashed⟩ := hi.running
      obtain ⟨hbooked, hcounted, hsquared⟩ := (ih hcrashed).idles (.stopIf _ stop)
      exact ⟨hbooked.handled hstopped.alive hstopped.accounted hh hp,
        hcounted.handled hstopped.alive hh hp, hsquared.handled hh hp (by simpa using hended)⟩

/-- How the totals of a session come about that has come to its end. -/
structure Journal.AddsUp (j : Journal) (t : Totals) : Prop where
  /-- Every frame was announced by an event, counted as a chunk, dropped or malformed. -/
  frames : t.frames = j.events.countP Event.isCodec + j.events.countP Event.isMetadata + t.chunks +
    t.droppedChunks + t.malformedFrames
  received : t.frames = j.received fun _ => true
  media : t.chunks + t.droppedChunks = j.received Content.isMedia
  malformed : t.malformedFrames = j.received Content.malformed
  /-- All queues are summed up, each one once. -/
  queues : j.summaries.map QueueSummary.generation = j.generations
  /-- Every chunk was issued, refused or dropped by one of them. -/
  chunks : t.chunks =
    (j.summaries.map fun u => u.issued + j.refusals u.generation + u.dropped).sum
  issued : ∀ u ∈ j.summaries, u.issued = j.accepted u.generation
  rejected : ∀ u ∈ j.summaries, u.rejected = j.refusals u.generation + j.rejections u.generation
  late : ∀ u ∈ j.summaries, j.rejections u.generation ≤ u.issued
  connects : t.connects = j.events.countP Event.isConnected + j.countP Entry.isConnectFailed +
    j.countP Entry.isAbandoned
  abandoned : j.countP Entry.isAbandoned ≤ 1

/-- A session that has come to its end logs totals that add up. -/
theorem totals_add_up {out : Surface σ} {m : Moment σ} (h : Reachable out m)
    (hp : m.supervisor.phase = .ended) :
    m.journal.select Entry.ended? = [m.supervisor.totals] ∧
      m.journal.AddsUp m.supervisor.totals := by
  obtain ⟨hbooked, hcounted, hsquared⟩ := h.squares (by simp [hp])
  have hq : m.supervisor.queue = none := h.sound.queue_of_over (by simp [isOver, hp])
  have hbooks : m.supervisor.books = m.journal.books := books_of_none hq
  have hkept := hbooked.kept
  rw [hbooks] at hkept
  have hbalanced (u : QueueSummary) (hu : u ∈ m.journal.summaries) : m.journal.Balances u := by
    rw [← Journal.summaries_books] at hu
    exact (Journal.balances_books_iff _).mp (hkept.balanced u hu)
  have hlogged := hsquared.ended
  have hconnects := hsquared.connects
  have habandoned := hsquared.abandoned
  simp only [hp, if_true] at hlogged habandoned
  refine ⟨hlogged, ?_⟩
  constructor
  case frames =>
    rw [← Event.countP_isAnswer]
    exact hsquared.answers
  case received =>
    rw [hcounted.frames, hbooks, Journal.received_books]
  case media =>
    rw [hcounted.media, hbooks, Journal.received_books]
  case malformed =>
    rw [hcounted.malformed, hbooks, Journal.received_books]
  case queues =>
    rw [← Journal.summaries_books, ← Journal.generations_books]
    exact hkept.closed
  case chunks =>
    rw [hkept.chunks, Journal.summaries_books, Journal.intake_books]
    rfl
  case issued => exact fun u hu => (hbalanced u hu).issued
  case rejected => exact fun u hu => (hbalanced u hu).rejected
  case late => exact fun u hu => (hbalanced u hu).late
  case connects =>
    rw [hp] at hconnects
    exact hconnects
  case abandoned => exact habandoned

/-- Two chunks, of which one is still pending when the session is stopped, and a frame that is of
no use. -/
theorem totals_add_up_of_pending_chunk :
    let m := Moment.scripted Rehearsal.Stage.surface (.create false)
      [.frame (FrameTag.codec.build "avc1".toUTF8), .frame (FrameTag.media.build "a".toUTF8),
        .frame (FrameTag.media.build "b".toUTF8), .frame .empty] 16
    m.supervisor.phase = .ended ∧ m.supervisor.totals = ⟨1, 4, 2, 0, 1⟩ ∧
      m.journal.summaries.map (fun u => (u.issued, u.rejected, u.dropped)) = [(1, 0, 1)] ∧
      m.journal.select Entry.ended? = [m.supervisor.totals] ∧
      m.journal.AddsUp m.supervisor.totals :=
  ⟨by decide +kernel, by decide +kernel, by decide +kernel,
    totals_add_up (Moment.reachable_scripted _ _ _ _) (by decide +kernel)⟩

end LivePlayback
