import LivePlayback.Proofs.Session.Accounts

/-!
# Prompt sinks

A sink that takes every chunk, and is done with it before the call returns, never has anything
waiting. That it is done is known only from a notice that is read later. Since notices rank before
the transport, the notice is handled before the next frame is taken.
-/

namespace LivePlayback
set_option autoImplicit false

open Supervisor

variable {σ : Type}

/-- Every chunk is taken, and reported on before the call returns. -/
def Surface.Prompt (out : Surface σ) : Prop :=
  ∀ x generation chunk, (out.append x generation chunk).answer = some none ∧
    ∃ n ∈ (out.append x generation chunk).notices, n.generation = generation

theorem Tally.prompt : Tally.surface.Prompt :=
  fun _ generation _ => ⟨rfl, ⟨generation, none⟩, .head _, rfl⟩

/-! ## Journals -/

/-- A chunk that a sink took. -/
def Entry.taken? : Entry → Option (Nat × ByteArray)
  | .offered g chunk true => some (g, chunk)
  | _ => none

namespace Journal

/-- The chunks that were taken, each with its sink, oldest first. -/
def taken (j : Journal) : List (Nat × ByteArray) := j.select Entry.taken?

/-- The sink whose queue was not destroyed yet. -/
def standing : Journal → Option Nat
  | [] => none
  | .created g _ :: _ => some g
  | .queueEnded _ :: _ => none
  | _ :: j => standing j

/-- The media frames that were received while there was a queue, each with its sink, oldest
first. -/
def housed : Journal → List (Nat × ByteArray)
  | [] => []
  | .received f :: j =>
    match standing j with
    | some g => if Content.isMedia f then housed j ++ [(g, f)] else housed j
    | none => housed j
  | _ :: j => housed j

theorem taken_offered (g : Nat) (chunk : ByteArray) (j : Journal) :
    taken (.offered g chunk true :: j) = j.taken ++ [(g, chunk)] :=
  select_cons_of_some (f := Entry.taken?) rfl j

theorem taken_books (j : Journal) : j.books.taken = j.taken :=
  select_filter (fun e he => by cases e <;> first | rfl | cases he) j

theorem standing_books (j : Journal) : j.books.standing = j.standing := by
  induction j with
  | nil => rfl
  | cons e j ih => cases e <;> first | exact ih | rfl

theorem housed_books (j : Journal) : j.books.housed = j.housed := by
  induction j with
  | nil => rfl
  | cons e j ih =>
    cases e with
    | received f =>
      have hbooks : books (.received f :: j) = .received f :: books j := rfl
      rw [hbooks, housed, housed, standing_books, ih]
    | _ => exact ih

/-- Every media frame that found a queue was taken by its sink, and in the end nothing waited. -/
structure Served (j : Journal) (sink : Option Nat) : Prop where
  standing : j.standing = sink
  taken : j.taken = j.housed
  dropped : ∀ u ∈ j.summaries, u.dropped = 0

theorem served_books_iff {j : Journal} {sink : Option Nat} :
    Served j.books sink ↔ Served j sink := by
  constructor
  · rintro ⟨hs, ht, hd⟩
    rw [standing_books] at hs
    rw [taken_books, housed_books] at ht
    rw [summaries_books] at hd
    exact ⟨hs, ht, hd⟩
  · rintro ⟨hs, ht, hd⟩
    exact ⟨(standing_books j).trans hs, by rw [taken_books, housed_books, ht],
      by rwa [summaries_books]⟩

namespace Served

variable {j : Journal} {sink : Option Nat} {e : Entry} {g : Nat} {f : ByteArray}

/-- An entry that says nothing about chunks and their sinks, other than which sink there is. -/
theorem aside {sink' : Option Nat} (h : j.Served sink) (hs : Journal.standing (e :: j) = sink')
    (hh : Journal.housed (e :: j) = j.housed) (ht : e.taken? = none) (hq : e.queueEnded? = none) :
    Served (e :: j) sink' := by
  refine ⟨hs, ?_, ?_⟩
  · rw [hh, ← h.taken]
    exact select_cons_of_none ht j
  · rw [summaries, select_cons_of_none hq]
    exact h.dropped

theorem create (h : j.Served sink) (g : Nat) (codecs : Codecs) :
    Served (.created g codecs :: j) (some g) :=
  h.aside rfl rfl rfl rfl

theorem finish (h : j.Served sink) (g : Nat) (rejection : Option String) :
    Served (.finished g rejection :: j) sink :=
  h.aside h.standing rfl rfl rfl

theorem close {u : QueueSummary} (h : j.Served sink) (hu : u.dropped = 0) :
    Served (.queueEnded u :: j) none := by
  refine ⟨rfl, (select_cons_of_none rfl j).trans h.taken, ?_⟩
  rw [summaries_closed]
  intro v hv
  rcases List.mem_append.mp hv with hv | hv
  · exact h.dropped v hv
  · rwa [List.mem_singleton.mp hv]

/-- A frame that no queue waits for. -/
theorem receive (h : j.Served sink) (hf : Content.isMedia f = false ∨ sink = none) :
    Served (.received f :: j) sink := by
  refine h.aside h.standing ?_ rfl rfl
  rw [Journal.housed, h.standing]
  rcases hf with hf | rfl
  · cases sink <;> simp [hf]
  · rfl

/-- A media frame that is taken as soon as it is received. -/
theorem serve (h : j.Served (some g)) (hf : Content.isMedia f = true) :
    Served (.offered g f true :: .received f :: j) (some g) := by
  have hhoused : Journal.housed (.offered g f true :: .received f :: j) =
      j.housed ++ [(g, f)] := by
    simp only [Journal.housed, h.standing, hf, if_true]
  have hreceived : Journal.taken (.received f :: j) = j.taken := select_cons_of_none rfl j
  refine ⟨h.standing, ?_, ?_⟩
  · rw [hhoused, taken_offered, hreceived, h.taken]
  · rw [summaries, select_cons_of_none rfl, select_cons_of_none rfl]
    exact h.dropped

end Served

end Journal

/-! ## Sessions -/

namespace Supervisor

/-- The sink at hand has all that came, and unless the session is stopped, it is known whether it is
done. -/
structure Served (s : Supervisor σ) : Prop where
  journal : s.journal.Served (s.queue.map AppendQueue.generation)
  queue : ∀ q, s.queue = some q → q.state ≠ .destroyed ∧ q.pending = []
  awaited : s.stopRequested = false → ∀ q, s.queue = some q → q.state = .appending →
    ∃ n ∈ s.notices, n.generation = q.generation

namespace Served

variable {out : Surface σ} {s s' : Supervisor σ} {f : ByteArray}

theorem alive (h : s.Served) : s.Alive := fun q hq => (h.queue q hq).1

theorem congr (h : s.Served) (hb : s'.journal.books = s.journal.books) (hq : s'.queue = s.queue)
    (hn : s.notices ⊆ s'.notices) (hr : s'.stopRequested = false → s.stopRequested = false) :
    s'.Served := by
  refine ⟨?_, fun q h' => h.queue q (hq ▸ h'), fun hr' q h' ha => ?_⟩
  · rw [hq, ← Journal.served_books_iff, hb, Journal.served_books_iff]
    exact h.journal
  · obtain ⟨n, hm, hg⟩ := h.awaited (hr hr') q (hq ▸ h') ha
    exact ⟨n, hn hm, hg⟩

/-- The queue is given up, if there is one. -/
theorem giveUp (h : s.Served) (hb : s'.books = s.books) (hq : s'.queue = none) : s'.Served := by
  rw [books_of_none hq] at hb
  refine ⟨?_, by simp [hq], by simp [hq]⟩
  rw [hq, ← Journal.served_books_iff, hb]
  cases hq' : s.queue with
  | none =>
    rw [books_of_none hq', Journal.served_books_iff]
    exact hq' ▸ h.journal
  | some q =>
    have hdropped : q.summary.dropped = 0 := congrArg List.length (h.queue q hq').2
    rw [books_of_some hq']
    exact (Journal.served_books_iff.mpr h.journal).close hdropped

theorem absorb (h : s.Served) (a : Aftermath σ) : (s.absorb a).Served := by
  refine h.congr (Journal.books_heard _ _) rfl (List.subset_append_left _ _) fun hr => ?_
  exact (Bool.or_eq_false_iff.mp hr).1

theorem crash (h : s.Served) : (s.crash out).Served :=
  h.giveUp (Passes.crash h.alive).books (destroyQueue_queue out _)

theorem call {α : Type} {r : Reply σ α} {andThen : Supervisor σ → α → Supervisor σ}
    (h : s.Served) (hk : ∀ a, (s.absorb r.toAftermath).Served →
      (andThen (s.absorb r.toAftermath) a).Served) : (s.call out r andThen).Served := by
  unfold Supervisor.call
  split
  · exact hk _ (h.absorb _)
  · exact (h.absorb _).crash

theorem idles (h : s.Served) (hi : Idles s s') (hn : s.notices ⊆ s'.notices) : s'.Served := by
  have hbooks := hi.passes.books
  refine h.congr ?_ hi.queue hn fun hr => ?_
  · rw [books, books, hi.queue] at hbooks
    exact List.append_cancel_left hbooks
  · cases hs : s.stopRequested with
    | false => rfl
    | true => exact absurd (hi.stopped hs) (by simp [hr])

/-! ### Frames -/

theorem install (h : s.Served) (codecs : Codecs) : (s.install codecs).Served := by
  refine ⟨?_, ?_, ?_⟩
  · rw [← Journal.served_books_iff]
    exact (Journal.served_books_iff.mpr h.journal).create s.generation codecs
  · rintro q ⟨⟩
    exact ⟨nofun, rfl⟩
  · rintro _ q ⟨⟩ ha
    cases ha

theorem announce (h : s.Served) (codecs : Codecs) : (s.announce out codecs).Served := by
  have hdestroy : Passes s (s.destroyQueue out) [] := .destroyQueue h.alive
  exact h.giveUp hdestroy.books (destroyQueue_queue out s)

theorem installSink (h : s.Served) (codecs : Codecs) : (s.installSink out codecs).Served := by
  have hdecline {s' : Supervisor σ} (why : Fault) (h' : s'.Served) :
      (s'.reportUnsupported codecs why).Served := h'.congr rfl rfl (List.Subset.refl _) id
  unfold Supervisor.installSink
  refine (h.announce codecs).call fun supported h => ?_
  split
  · exact hdecline _ h
  · refine h.call fun refusal h => ?_
    cases refusal with
    | some why => exact hdecline why h
    | none => exact h.install codecs

theorem catchUp (h : s.Served) : (s.catchUp out).Served := by
  unfold Supervisor.catchUp
  split
  · exact h
  · refine h.call fun hidden h => ?_
    split
    · exact h
    · refine h.call fun bufferedEnd h => ?_
      cases bufferedEnd with
      | none => exact h
      | some bufferedEnd =>
        exact h.call fun _ h => h.congr rfl rfl (List.Subset.refl _) id

/-- A frame that no queue waits for is registered. -/
theorem register (h : s.Served) (hf : Content.isMedia f = false ∨ s.queue = none) :
    (s.register f).Served := by
  refine ⟨h.journal.receive (hf.imp_right fun hq => ?_), h.queue, h.awaited⟩
  rw [hq, Option.map_none]

/-- The queue has nothing in flight, so the chunk is offered at once, and taken. -/
theorem enqueue {q : AppendQueue} (hout : out.Prompt) (h : s.Served)
    (hf : Content.isMedia f = true) (hq : s.queue = some q) (hidle : q.state = .idle) :
    ((s.register f).handleChunk out f).Served := by
  let s₁ : Supervisor σ := { s.register f with
    totals := { (s.register f).totals with chunks := (s.register f).totals.chunks + 1 } }
  obtain ⟨haccepted, n, hn, hg⟩ := hout s.surface q.generation f
  have hpending : q.pending = [] := (h.queue q hq).2
  have hchunk : (s.register f).handleChunk out f = { s₁.offerTo out q.generation f true with
      queue := some { q with state := .appending, pending := [], issued := q.issued + 1 } } := by
    have hoffer : q.offer (sink out q.generation) s₁ [f] = _ := Plays.offer_accepted haccepted
    have hq' : (s.register f).queue = some q := hq
    rw [handleChunk_of_some hq', AppendQueue.enqueue_of_idle hidle, hpending, hoffer]
    rfl
  rw [hchunk]
  have hjournal := h.journal
  rw [hq] at hjournal
  refine ⟨?_, ?_, ?_⟩
  · have hbooks : (s₁.offerTo out q.generation f true).journal.books =
        .offered q.generation f true :: .received f :: s.journal.books := offerTo_books _ _ _
    rw [← Journal.served_books_iff, hbooks]
    exact (Journal.served_books_iff.mpr hjournal).serve hf
  · rintro _ ⟨⟩
    exact ⟨nofun, rfl⟩
  · rintro _ _ ⟨⟩ _
    exact ⟨n, List.mem_append_right _ hn, hg⟩

theorem content (hout : out.Prompt) (h : s.Served)
    (hidle : ∀ q, s.queue = some q → q.state = .idle) :
    ((s.register f).handleContent out (Content.ofFrame f)).Served := by
  cases hf : Content.ofFrame f with
  | error why =>
    exact (h.register (.inl (by simp [Content.isMedia, hf]))).congr rfl rfl
      (List.Subset.refl _) id
  | ok content =>
    cases content with
    | codecs codecs =>
      exact (h.register (.inl (by simp [Content.isMedia, hf]))).installSink codecs
    | metadata m =>
      have hregistered : (s.register f).Served :=
        h.register (.inl (by simp [Content.isMedia, hf]))
      simp only [handleContent, publishMetadata]
      split
      · exact hregistered.crash
      · exact hregistered.congr rfl rfl (List.Subset.refl _) id
    | media chunk =>
      obtain rfl := Content.media_eq hf
      cases hq : s.queue with
      | none =>
        have hq' : (s.register chunk).queue = none := hq
        simp only [handleContent, handleChunk_of_none hq']
        exact (h.register (.inr hq)).congr rfl rfl (List.Subset.refl _) id
      | some q => exact h.enqueue hout (by simp [Content.isMedia, hf]) hq (hidle q hq)

theorem frame (hout : out.Prompt) (h : s.Served)
    (hidle : ∀ q, s.queue = some q → q.state = .idle) : (s.handleFrame out f).Served := by
  have hcontent : ((s.register f).handleContent out (Content.ofFrame f)).Served :=
    h.content hout hidle
  unfold handleFrame
  split
  · exact h
  · simp only
    split
    · exact hcontent
    · exact hcontent.catchUp

/-! ### Notices -/

/-- A notice that is not for an append in flight is not missed. -/
theorem ignore {n : Notice} {rest : List Notice} (h : s.Served) (hn : s.notices = n :: rest)
    (hother : s.stopRequested = false → ∀ q, s.queue = some q → q.state = .appending →
      q.generation ≠ n.generation) : Supervisor.Served { s with notices := rest } := by
  refine ⟨h.journal, h.queue, fun hr q hq ha => ?_⟩
  obtain ⟨n', hm, hg⟩ := h.awaited hr q hq ha
  rw [hn] at hm
  cases hm with
  | head => exact absurd hg.symm (hother hr q hq ha)
  | tail _ hm => exact ⟨n', hm, hg⟩

theorem notice {n : Notice} {rest : List Notice} (h : s.Served)
    (hhalted : s.halted = s.stopRequested) (hn : s.notices = n :: rest) :
    ({ s with notices := rest }.handleNotice out n).Served := by
  let s₀ : Supervisor σ := { s with notices := rest }
  change (s₀.handleNotice out n).Served
  have hhalted' : s₀.halted = s.stopRequested := hhalted
  unfold handleNotice
  split
  · rename_i hh
    refine h.ignore hn fun hr => ?_
    rw [hhalted', hr] at hh
    cases hh
  · split
    · rename_i hq
      have hq : s.queue = none := hq
      exact h.ignore hn fun _ q hq' => by cases hq.symm.trans hq'
    · rename_i q hq
      have hq : s.queue = some q := hq
      split
      · obtain ⟨halive, hpending⟩ := h.queue q hq
        cases hs : q.state with
        | destroyed => exact absurd hs halive
        | idle =>
          have hkeep : keepQueue out ⟨q, s₀, false⟩ = s₀ := by simp [keepQueue, s₀, ← hq]
          rw [noteFinished, if_neg (by simp [hs]), AppendQueue.finish_of_idle hs, hkeep]
          refine h.ignore hn fun _ q' hq' ha => ?_
          cases hq.symm.trans hq'
          cases hs.symm.trans ha
        | appending =>
          -- Nothing waits behind the append that is finished, so the queue comes to rest.
          rw [noteFinished, if_pos hs, AppendQueue.finish_of_appending hs, hpending]
          have hjournal := h.journal
          rw [hq] at hjournal
          refine ⟨?_, ?_, ?_⟩
          · rw [← Journal.served_books_iff]
            exact (Journal.served_books_iff.mpr hjournal).finish n.generation n.rejection
          · rintro _ ⟨⟩
            have hrest : QueueState.idle ≠ .destroyed := by simp
            exact ⟨hrest, rfl⟩
          · rintro _ _ ⟨⟩ ha
            cases ha
      · rename_i hg
        exact h.ignore hn fun _ q' hq' _ => by cases hq.symm.trans hq'; exact hg

end Served

/-- After a passage there is no queue. -/
theorem Passage.queue_eq_none {s s' : Supervisor σ} {now : Nat} {i : Input} {told : Journal}
    (h : Passage s now i s'.phase told) (hp : Passes s s' told) (hs : Sound s) (hs' : Sound s') :
    s'.queue = none := by
  generalize hphase : s'.phase = phase at h
  cases h with
  | begin | reconnect => exact (hs'.of_connecting hphase).2.queue
  | opened hp' =>
    have hbefore : s.queue = none := (hs.of_connecting hp').2.queue
    exact hp.queue.elim (fun hq => hq.trans hbefore) id
  | lost hl =>
    have hstate : s'.state = .reconnectPending := by
      rw [hp.state]
      cases hl <;> rfl
    cases hs' with
    | pausing _ _ _ hq => exact hq
    | _ => simp_all
  | closing => exact (hs'.of_closing hphase).2.2.2.1
  | retired | broken => exact hs'.queue_of_over (by simp [isOver, hphase])

theorem Served.handled {out : Surface σ} {s s' : Supervisor σ} {now : Nat} {i : Input}
    (hout : out.Prompt) (h : s.Served) (hs : Sound s) (hs' : Sound s')
    (hidle : ∀ r, i = .received r → ∀ q, s.queue = some q → q.state = .idle)
    (hh : Handled out s now i s') : s'.Served := by
  cases hh with
  | frame => exact h.frame hout (hidle _ rfl)
  | notice hp hn => exact h.notice (Sound.halted_iff (hs.state_ne (by simp [hp]))) hn
  | passage hp hpassage => exact h.giveUp hp.books (hpassage.queue_eq_none hp hs hs')

end Supervisor

/-- Before the transport is asked for a frame, all notices are handled. -/
theorem Supervisor.notices_of_ask_frame {s : Supervisor σ} {now : Nat}
    (h : s.turn now = .ask .frame) : s.stopRequested = false ∧ s.notices = [] := by
  unfold turn at h
  cases hp : s.phase with
  | waiting =>
    simp only [hp] at h
    split at h
    · cases h
    · rename_i hs
      split at h
      · cases h
      · split at h
        · cases h
        · rename_i hn
          exact ⟨eq_false_of_ne_true hs, hn⟩
  | connecting =>
    simp only [hp] at h
    split at h <;> cases h
  | spawned | closing | ended | crashed => simp [hp] at h

theorem InTurn.ask_frame {s : Supervisor σ} {now : Nat} {r : Reception}
    (h : InTurn s now (.received r)) : s.turn now = .ask .frame := by
  cases h with
  | take h =>
    unfold turn at h
    repeat' split at h
    all_goals cases h
  | @answer q _ h hi =>
    cases q with
    | frame => exact h
    | connect | close => simp [Question.Answers] at hi

/-- Whatever is taken from the transport finds the queue at rest. -/
theorem InTurn.at_rest {s : Supervisor σ} {now : Nat} {r : Reception}
    (h : InTurn s now (.received r)) (hs : s.Served) {q : AppendQueue} (hq : s.queue = some q) :
    q.state = .idle ∧ q.pending = [] := by
  obtain ⟨halive, hpending⟩ := hs.queue q hq
  obtain ⟨hr, hn⟩ := notices_of_ask_frame h.ask_frame
  refine ⟨?_, hpending⟩
  cases ha : q.state with
  | idle => rfl
  | destroyed => exact absurd ha halive
  | appending =>
    obtain ⟨n, hm, _⟩ := hs.awaited hr q hq ha
    rw [hn] at hm
    cases hm

theorem Supervisor.notices_subset_notify (s : Supervisor σ) (n : Notice) :
    s.notices ⊆ (s.notify n).notices := by
  unfold notify
  simp only
  split
  · exact List.Subset.refl _
  · exact List.subset_append_left _ _

section Runs

variable {out : Surface σ} {drifts : σ → σ → Prop} {m m' : Moment σ}

theorem RankedStep.served (hout : out.Prompt) (hm : Reachable out m) (hs : m.supervisor.Served)
    (h : RankedStep out drifts m m') : m'.supervisor.Served := by
  cases h with
  | pass => exact hs
  | stop => exact hs.idles (.requestStop _) (List.Subset.refl _)
  | notify n => exact hs.idles (.notify _ n) (notices_subset_notify _ n)
  | touch => exact hs.idles (.touch _ _) (List.Subset.refl _)
  | handle stop hi =>
    have hsound : Sound (m.supervisor.stopIf stop) := hm.sound.stopIf stop
    have hnext : Reachable out _ := hm.step (.handle stop hi.admits)
    have hstopped : (m.supervisor.stopIf stop).Served :=
      hs.idles (.stopIf _ stop) (by simp)
    refine hstopped.handled hout hsound hnext.sound ?_
      (Supervisor.handled hsound (hm.sound.comes hi.admits stop))
    rintro r rfl q hq
    rw [(Idles.stopIf _ stop).queue] at hq
    exact (hi.at_rest hs hq).1

theorem RankedRun.served (hout : out.Prompt) (hm : Reachable out m) (hs : m.supervisor.Served)
    (h : RankedRun out drifts m m') : m'.supervisor.Served := by
  induction h with
  | refl => exact hs
  | tail h step ih => exact step.served hout (hm.run (RankedRun.run h)) ih

end Runs

theorem Supervisor.served_spawn (url : String) (config : Config) (x : σ) (tracing : Bool) :
    (Supervisor.spawn url config x tracing).Served :=
  ⟨⟨rfl, rfl, nofun⟩, nofun, nofun⟩

end LivePlayback
