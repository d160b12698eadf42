import LivePlayback.Proofs.Session.Soundness

/-!
# Passages

Every input that is handled takes a session from one phase to the next. What it goes through on the
way can be told from its journal: the states it shows, the events it emits and the fate of its
connections. Here this is said once for each handler, and nothing further on opens one of them to
learn it.
-/

namespace LivePlayback
set_option autoImplicit false

open Supervisor

variable {σ : Type}

namespace Entry

/-- Entries about the course of a session: its states, its events and its connections. -/
def milestone : Entry → Bool
  | .state _ | .event _ | .connecting _ _ | .opened _ | .connectFailed _ | .abandoned _
  | .closing _ | .transportDropped _ | .armed _ _ | .fired _ | .ended _ => true
  | _ => false

/-- Entries about frames, queues and what becomes of their chunks. -/
def onBooks : Entry → Bool
  | .received _ | .created _ _ | .offered _ _ _ | .finished _ _ | .queueEnded _ => true
  | _ => false

def isConnecting : Entry → Bool
  | .connecting _ _ => true
  | _ => false

theorem onBooks_of_milestone {e : Entry} (h : e.milestone = true) : e.onBooks = false := by
  cases e with
  | received | created | offered | finished | queueEnded => cases h
  | _ => rfl

end Entry

/-- Events that answer a frame. -/
def Event.isAnswer : Event → Bool
  | .codecChanged _ | .codecUnsupported _ _ | .metadata _ => true
  | _ => false

namespace Journal

def milestones (j : Journal) : Journal := j.filter Entry.milestone

def books (j : Journal) : Journal := j.filter Entry.onBooks

/-- The state that is shown last, where another one was shown before. -/
def shown (j : Journal) (before : SessionState) : SessionState := j.states.getLastD before

theorem select_append {α : Type} (later j : Journal) (f : Entry → Option α) :
    select (later ++ j) f = j.select f ++ later.select f := by
  simp [select]

theorem states_append (later j : Journal) : states (later ++ j) = j.states ++ later.states :=
  select_append later j _

theorem events_append (later j : Journal) : events (later ++ j) = j.events ++ later.events :=
  select_append later j _

theorem states_transportDropped (attempts : List Nat) :
    states (attempts.map .transportDropped) = [] := by
  simp [states, select, Entry.state?, List.filterMap_map]

theorem events_transportDropped (attempts : List Nat) :
    events (attempts.map .transportDropped) = [] := by
  simp [events, select, Entry.event?, List.filterMap_map]

theorem states_emitted (emitted : List Event) : states (emitted.map .event) = [] := by
  simp [states, select, Entry.state?, List.filterMap_map]

theorem events_emitted (emitted : List Event) : events (emitted.map .event) = emitted.reverse := by
  simp [events, select, Entry.event?, List.filterMap_map, Function.comp_def]

theorem getLastD_append {α : Type} (l l' : List α) (a : α) :
    (l ++ l').getLastD a = l'.getLastD (l.getLastD a) := by
  simp only [List.getLastD_eq_getLast?, List.getLast?_append, Option.getD_or]

theorem shown_append (later j : Journal) (before : SessionState) :
    shown (later ++ j) before = later.shown (j.shown before) := by
  rw [shown, states_append]
  exact getLastD_append _ _ before

theorem milestones_ofNotices (ns : List Notice) : milestones (.ofNotices ns) = [] := by
  apply List.filter_eq_nil_iff.mpr
  intro e he
  obtain ⟨n, _, rfl⟩ := mem_ofNotices_iff.mp he
  simp [Entry.milestone]

/-- What is read off some of the entries alone. -/
theorem select_filter {α : Type} {p : Entry → Bool} {f : Entry → Option α}
    (hf : ∀ e, p e = false → f e = none) (j : Journal) :
    select (j.filter p) f = j.select f := by
  unfold select
  rw [List.filterMap_filter]
  congr 2
  funext e
  cases he : p e with
  | true => simp
  | false => simp [hf e he]

theorem countP_filter {p f : Entry → Bool} (hf : ∀ e, f e = true → p e = true) (j : Journal) :
    (j.filter p).countP f = j.countP f := by
  rw [List.countP_filter]
  congr 1
  funext e
  cases he : f e with
  | true => simp [hf e he]
  | false => simp

theorem books_ofNotices (ns : List Notice) : books (.ofNotices ns) = [] := by
  apply List.filter_eq_nil_iff.mpr
  intro e he
  obtain ⟨n, _, rfl⟩ := mem_ofNotices_iff.mp he
  simp [Entry.onBooks]

theorem books_heard (ns : List Notice) (j : Journal) : books (.ofNotices ns ++ j) = j.books := by
  rw [books, List.filter_append]
  exact congrArg (· ++ j.books) (books_ofNotices ns)

end Journal

namespace Supervisor

/-- The books as they are closed when the queue is destroyed. -/
def books (s : Supervisor σ) : Journal :=
  (s.queue.toList.map fun q => .queueEnded q.summary) ++ s.journal.books

/-- What a session tells from one moment to a later one, newest first. -/
structure Tells (s s' : Supervisor σ) (told : Journal) : Prop where
  url : s'.url = s.url
  config : s'.config = s.config
  tracing : s'.tracing = s.tracing
  delay : s'.timer.delay = s.timer.delay
  state : s'.state = told.shown s.state
  milestones : s'.journal.milestones = told ++ s.journal.milestones

namespace Tells

variable {out : Surface σ} {s s₁ s₂ : Supervisor σ} {told told' : Journal}

theorem refl (s : Supervisor σ) : Tells s s [] := ⟨rfl, rfl, rfl, rfl, rfl, rfl⟩

theorem trans (h : Tells s s₁ told) (h' : Tells s₁ s₂ told') : Tells s s₂ (told' ++ told) := by
  refine ⟨h'.url.trans h.url, h'.config.trans h.config, h'.tracing.trans h.tracing,
    h'.delay.trans h.delay, ?_, ?_⟩
  · rw [h'.state, h.state, Journal.shown_append]
  · rw [h'.milestones, h.milestones, List.append_assoc]

theorem select {α : Type} {f : Entry → Option α} (h : Tells s s₁ told)
    (hf : ∀ e, e.milestone = false → f e = none) :
    s₁.journal.select f = s.journal.select f ++ told.select f := by
  have hmilestones : s₁.journal.milestones.select f = s₁.journal.select f :=
    Journal.select_filter hf _
  rw [← hmilestones, h.milestones, Journal.select_append, Journal.milestones,
    Journal.select_filter hf]

theorem countP {p : Entry → Bool} (h : Tells s s₁ told)
    (hp : ∀ e, p e = true → e.milestone = true) :
    s₁.journal.countP p = told.countP p + s.journal.countP p := by
  have hmilestones : s₁.journal.milestones.countP p = s₁.journal.countP p :=
    Journal.countP_filter hp _
  rw [← hmilestones, h.milestones, List.countP_append, Journal.milestones,
    Journal.countP_filter hp]

theorem states (h : Tells s s₁ told) :
    s₁.journal.states = s.journal.states ++ told.states :=
  h.select fun e he => by cases e <;> first | rfl | cases he

theorem events (h : Tells s s₁ told) :
    s₁.journal.events = s.journal.events ++ told.events :=
  h.select fun e he => by cases e <;> first | rfl | cases he

theorem note {e : Entry} (he : e.milestone = true) (hs : e.state? = none) :
    Tells s (s.note e) [e] :=
  ⟨rfl, rfl, rfl, rfl, by simp [Journal.shown, Journal.states, Journal.select, hs, Supervisor.note],
    List.filter_cons_of_pos he⟩

theorem aside {e : Entry} (he : e.milestone = false) : Tells s (s.note e) [] :=
  ⟨rfl, rfl, rfl, rfl, rfl, List.filter_cons_of_neg (by simp [he])⟩

theorem absorb (s : Supervisor σ) (a : Aftermath σ) : Tells s (s.absorb a) [] := by
  refine ⟨rfl, rfl, rfl, rfl, rfl, ?_⟩
  rw [Supervisor.absorb, Journal.milestones, List.filter_append]
  exact congrArg (· ++ s.journal.milestones) (Journal.milestones_ofNotices a.notices)

theorem offerTo (generation : Nat) (chunk : ByteArray) (accepted : Bool) (s : Supervisor σ) :
    Tells s (s.offerTo out generation chunk accepted) [] := by
  have hoffered : Tells s (s.note (.offered generation chunk accepted)) [] := aside rfl
  exact hoffered.trans (absorb _ _)

theorem hears (h : Hears out s s₁) : Tells s s₁ [] := by
  induction h with
  | refl => exact refl s
  | call _ _ ih => exact ih.trans (absorb _ _)

theorem release (q : AppendQueue) (s : Supervisor σ) : Tells s (s.release out q) [] := by
  have hreleased : Tells s ({ s with queue := none }.note (.released q.generation)) [] :=
    ⟨rfl, rfl, rfl, rfl, rfl, rfl⟩
  exact (hreleased.trans (absorb _ _)).trans (aside rfl)

theorem destroyQueue (out : Surface σ) (s : Supervisor σ) : Tells s (s.destroyQueue out) [] := by
  rcases Supervisor.destroyQueue_cases out s with h | ⟨q, _, h⟩ <;> rw [h]
  · exact ⟨rfl, rfl, rfl, rfl, rfl, rfl⟩
  · exact release q s

theorem register (f : ByteArray) (s : Supervisor σ) : Tells s (s.register f) [] :=
  ⟨rfl, rfl, rfl, rfl, rfl, rfl⟩

theorem announce (codecs : Codecs) (s : Supervisor σ) : Tells s (s.announce out codecs) [] := by
  have hdestroy : Tells s (s.destroyQueue out) [] := destroyQueue out s
  exact ⟨hdestroy.url, hdestroy.config, hdestroy.tracing, hdestroy.delay, hdestroy.state,
    hdestroy.milestones⟩

/-- From the frame to the answers of the surface. -/
theorem announced {f : ByteArray} {codecs : Codecs}
    (h : Hears out ((s.register f).announce out codecs) s₁) : Tells s s₁ [] :=
  ((register f s).trans (announce codecs _)).trans (hears h)

theorem dropTransport (s : Supervisor σ) :
    Tells s s.dropTransport (s.transport.toList.map .transportDropped) := by
  unfold Supervisor.dropTransport
  split
  · rename_i ht
    rw [ht]
    exact refl s
  · rename_i attempt ht
    rw [ht]
    exact ⟨rfl, rfl, rfl, rfl, rfl, rfl⟩

theorem crash (s : Supervisor σ) :
    Tells s (s.crash out) (s.transport.toList.map .transportDropped) := by
  have hdrop := dropTransport s
  have hdestroy := hdrop.trans (destroyQueue out s.dropTransport)
  exact ⟨hdestroy.url, hdestroy.config, hdestroy.tracing, rfl, hdestroy.state, hdestroy.milestones⟩

/-- Nothing is told but what answers a frame, and only while a connection is open. -/
theorem playAct (h : PlayAct out s s₁) :
    ∃ answers : List Event, (∀ e ∈ answers, e.isAnswer = true ∧ s.transport.isSome = true) ∧
      Tells s s₁ (answers.reverse.map .event) := by
  cases h with
  | hear hears => exact ⟨[], nofun, Tells.hears hears⟩
  | publish hr =>
    refine ⟨[.metadata _], ?_, ⟨rfl, rfl, rfl, rfl, rfl, rfl⟩⟩
    simp [Event.isAnswer, hr.transport]
  | accept | refuse =>
    exact ⟨[], nofun, ⟨rfl, rfl, rfl, rfl, rfl, (offerTo _ _ _ s).milestones⟩⟩
  | @install s' _ codecs hr _ hears =>
    have hasked : Tells s s' [] := announced hears
    have hinstalled : Tells s' (s'.install codecs) [.event (.codecChanged codecs)] :=
      ⟨rfl, rfl, rfl, rfl, rfl, rfl⟩
    refine ⟨[.codecChanged codecs], ?_, hasked.trans hinstalled⟩
    simp [Event.isAnswer, hr.transport]
  | decline hr _ hears =>
    refine ⟨[.codecUnsupported _ _], ?_, (announced hears).trans (.note rfl rfl)⟩
    simp [Event.isAnswer, hr.transport]
  | falter _ _ hears => exact ⟨[], nofun, announced hears⟩
  | seek | malformed | withhold | stray | enqueue | finish | ignore =>
    exact ⟨[], nofun, ⟨rfl, rfl, rfl, rfl, rfl, rfl⟩⟩

theorem breaks (h : Breaks out s s₁) : Tells s s₁ [] := by
  cases h with
  | mk => exact ⟨rfl, rfl, rfl, rfl, rfl, (absorb s _).milestones⟩

theorem playActs (h : PlayActs out s s₁) :
    ∃ answers : List Event, (∀ e ∈ answers, e.isAnswer = true ∧ s.transport.isSome = true) ∧
      Tells s s₁ (answers.reverse.map .event) := by
  induction h with
  | refl => exact ⟨[], nofun, refl s⟩
  | tail acts act ih =>
    obtain ⟨answers, ha, htells⟩ := ih
    obtain ⟨answers', ha', htells'⟩ := playAct act
    -- Acts neither open nor drop a connection.
    rw [PlayActs.abreast acts |>.transport] at ha'
    refine ⟨answers ++ answers', ?_, ?_⟩
    · intro e he
      rcases List.mem_append.mp he with he | he
      · exact ha e he
      · exact ha' e he
    · rw [List.reverse_append, List.map_append]
      exact htells.trans htells'

theorem plays (h : Plays out s s₁) :
    ∃ answers : List Event, (∀ e ∈ answers, e.isAnswer = true ∧ s.transport.isSome = true) ∧
      ∃ dropped : List Nat, Tells s s₁
        (dropped.map .transportDropped ++ answers.reverse.map .event) := by
  cases h with
  | well h =>
    obtain ⟨answers, ha, htells⟩ := playActs h
    exact ⟨answers, ha, [], htells⟩
  | crash h =>
    obtain ⟨answers, ha, htells⟩ := playActs h
    exact ⟨answers, ha, _, htells.trans (crash _)⟩
  | breakdown h hb =>
    obtain ⟨answers, ha, htells⟩ := playActs h
    exact ⟨answers, ha, _, (htells.trans (breaks hb)).trans (crash _)⟩

end Tells

/-- A session goes from one moment to a later one and handles neither frames nor notices; if its
queue is destroyed, the books are closed as they stood. -/
structure Passes (s s' : Supervisor σ) (told : Journal) : Prop extends Tells s s' told where
  queue : s'.queue = s.queue ∨ s'.queue = none
  books : s'.books = s.books
  totals : s'.totals =
    { s.totals with connects := s.totals.connects + told.countP Entry.isConnecting }

namespace Passes

variable {out : Surface σ} {s s₁ s₂ : Supervisor σ} {told told' : Journal} {now : Nat}

theorem trans (h : Passes s s₁ told) (h' : Passes s₁ s₂ told') :
    Passes s s₂ (told' ++ told) := by
  refine ⟨h.toTells.trans h'.toTells, ?_, h'.books.trans h.books, ?_⟩
  · rcases h'.queue with hq | hq
    · rw [hq]
      exact h.queue
    · exact .inr hq
  · rw [h'.totals, h.totals, List.countP_append]
    simp only [Totals.mk.injEq, and_true]
    omega

theorem congr (hurl : s₁.url = s.url) (hconfig : s₁.config = s.config)
    (htracing : s₁.tracing = s.tracing) (hdelay : s₁.timer.delay = s.timer.delay)
    (hs : s₁.state = s.state) (hq : s₁.queue = s.queue) (ht : s₁.totals = s.totals)
    (hj : s₁.journal = s.journal) :
    Passes s s₁ [] :=
  ⟨⟨hurl, hconfig, htracing, hdelay, hs, congrArg _ hj⟩, .inl hq,
    by simp only [Supervisor.books, hq, hj], ht⟩

theorem refl (s : Supervisor σ) : Passes s s [] := congr rfl rfl rfl rfl rfl rfl rfl rfl

theorem note {e : Entry} (he : e.milestone = true) (hs : e.state? = none)
    (hc : e.isConnecting = false) : Passes s (s.note e) [e] := by
  refine ⟨.note he hs, .inl rfl, ?_, ?_⟩
  · have hb : e.onBooks = false := Entry.onBooks_of_milestone he
    have hbooks : Journal.books (e :: s.journal) = s.journal.books :=
      List.filter_cons_of_neg (by simp [hb])
    exact congrArg ((s.queue.toList.map fun q => .queueEnded q.summary) ++ ·) hbooks
  · simp [Supervisor.note, hc]

theorem emit (e : Event) : Passes s (s.emit e) [.event e] := note rfl rfl rfl

theorem setState (state : SessionState) (h : s.state ≠ state) :
    Passes s (s.setState state) [.state state] := by
  rw [Supervisor.setState, if_neg h]
  exact ⟨⟨rfl, rfl, rfl, rfl, rfl, rfl⟩, .inl rfl, rfl, rfl⟩

theorem dropTransport (s : Supervisor σ) :
    Passes s s.dropTransport (s.transport.toList.map .transportDropped) := by
  unfold Supervisor.dropTransport
  split
  · rename_i ht
    rw [ht]
    exact refl s
  · rename_i attempt ht
    have hgone : Passes s { s with transport := none } [] := congr rfl rfl rfl rfl rfl rfl rfl rfl
    rw [ht]
    exact hgone.trans (note rfl rfl rfl)

theorem release (q : AppendQueue) (hq : s.queue = some q) : Passes s (s.release out q) [] := by
  refine ⟨.release q s, .inr rfl, ?_, rfl⟩
  have hj : (s.release out q).journal.books = .queueEnded q.summary :: s.journal.books := by
    simp only [Supervisor.release, Supervisor.absorb, Supervisor.note, Journal.books]
    rw [List.filter_cons_of_pos rfl]
    exact congrArg (.queueEnded q.summary :: ·) (Journal.books_heard _ _)
  simp only [Supervisor.books, hj, hq]
  rfl

theorem destroyQueue (ha : s.Alive) : Passes s (s.destroyQueue out) [] := by
  cases hq : s.queue with
  | none =>
    rw [destroyQueue_of_none hq]
    exact refl s
  | some q =>
    rw [destroyQueue_of_some hq (ha q hq)]
    exact release q hq

/-- What is told at the end of a session. -/
def farewell (totals : Totals) : Journal := [.ended totals, .event .stopped, .state .destroyed]

theorem finish (hq : s.queue = none) (hs : s.state ≠ .destroyed) :
    Passes s (s.finish out) (farewell s.totals) := by
  let s₁ : Supervisor σ := { s with timer := s.timer.cancel }
  have hcancel : Passes s s₁ [] := congr rfl rfl rfl rfl rfl rfl rfl rfl
  have hstate : Passes s₁ (s₁.setState .destroyed) [.state .destroyed] := setState .destroyed hs
  have hstopped := (hcancel.trans hstate).trans (emit .stopped)
  have hended : Passes ((s₁.setState .destroyed).emit .stopped)
      { (s₁.setState .destroyed).emit .stopped with phase := .ended } [] :=
    congr rfl rfl rfl rfl rfl rfl rfl rfl
  rw [finish_of_none hq hs]
  exact (hstopped.trans hended).trans (note rfl rfl rfl)

theorem unload (ha : s.Alive) :
    Passes s ({ s with timer := s.timer.cancel }.destroyQueue out) [] := by
  have hcancel : Passes s { s with timer := s.timer.cancel } [] :=
    congr rfl rfl rfl rfl rfl rfl rfl rfl
  exact hcancel.trans (destroyQueue ha)

theorem crash (ha : s.Alive) :
    Passes s (s.crash out) (s.transport.toList.map .transportDropped) := by
  have hdrop : Passes s s.dropTransport (s.transport.toList.map .transportDropped) :=
    dropTransport s
  have hgone : Passes s.dropTransport (s.dropTransport.destroyQueue out) [] :=
    destroyQueue (by simpa [Alive] using ha)
  have hdestroy := hdrop.trans hgone
  have hdown : Passes (s.dropTransport.destroyQueue out) (s.crash out) [] :=
    congr rfl rfl rfl hdestroy.delay.symm rfl rfl rfl rfl
  exact hdestroy.trans hdown

theorem abandonConnect (hp : s.phase = .connecting) :
    Passes s s.abandonConnect [.abandoned s.totals.connects] := by
  rw [Supervisor.abandonConnect, if_pos hp]
  exact note rfl rfl rfl

end Passes

/-- A connection is lost, or could not be opened. -/
inductive Loses (s : Supervisor σ) : Input → Option String → Journal → Prop where
  | failed (why : Fault) (hp : s.phase = .connecting) :
      Loses s (.connectFailed why) (some why.message) [.connectFailed s.totals.connects]
  | closed {attempt : Nat} (hp : s.phase = .waiting) (ht : s.transport = some attempt) :
      Loses s (.received .closed) none [.transportDropped attempt]
  | broken {attempt : Nat} (why : Fault) (hp : s.phase = .waiting)
      (ht : s.transport = some attempt) :
      Loses s (.received (.failed why)) (some why.message) [.transportDropped attempt]

theorem Loses.events {s : Supervisor σ} {i : Input} {why : Option String} {first : Journal}
    (h : Loses s i why first) : first.events = [] := by
  cases h <;> rfl

/-- What a session that was asked to stop goes through before it says farewell. -/
inductive Retires (s : Supervisor σ) (now : Nat) : Input → Journal → Prop where
  | unstarted (hp : s.phase = .spawned) : Retires s now .begin []
  | overdue (hp : s.phase = .waiting) (ht : s.transport = none) :
      Retires s now .reconnect [.fired now]
  | abandoned (hp : s.phase = .connecting) :
      Retires s now .stop [.abandoned s.totals.connects]
  | idle (hp : s.phase = .waiting) (ht : s.transport = none) : Retires s now .stop []
  | lost {i : Input} {why : Option String} {first : Journal} (h : Loses s i why first) :
      Retires s now i (.event (.disconnected why) :: first)
  | closed {deadline attempt : Nat} (hp : s.phase = .closing deadline)
      (ht : s.transport = some attempt) : Retires s now .closed [.transportDropped attempt]

/-- How a session passes on to its next phase, and what it tells of it, newest first. -/
inductive Passage (s : Supervisor σ) (now : Nat) : Input → Phase → Journal → Prop where
  | begin (hp : s.phase = .spawned) : Passage s now .begin .connecting
      [.connecting (s.totals.connects + 1) now, .state .connecting]
  | reconnect (hp : s.phase = .waiting) (ht : s.transport = none) :
      Passage s now .reconnect .connecting
        [.connecting (s.totals.connects + 1) now, .state .connecting, .fired now]
  | opened (hp : s.phase = .connecting) : Passage s now .connected .waiting
      [.event (.connected s.url), .state .opened, .opened s.totals.connects]
  | lost {i : Input} {why : Option String} {first : Journal} (h : Loses s i why first) :
      Passage s now i .waiting
        ([.event (.reconnecting s.timer.delay), .state .reconnectPending,
          .armed now (s.timer.delay.alarm now), .event (.disconnected why)] ++ first)
  | closing {attempt : Nat} (hp : s.phase = .waiting) (ht : s.transport = some attempt) :
      Passage s now .stop (.closing (s.config.closeTimeout.after now)) [.closing attempt]
  | retired {i : Input} {first : Journal} (h : Retires s now i first) :
      Passage s now i .ended (Passes.farewell s.totals ++ first)
  | broken : Passage s now .broken .crashed (s.transport.toList.map .transportDropped)

namespace Passes

variable {s s' : Supervisor σ} {told : Journal}

theorem totals_eq (h : Passes s s' told) (hc : told.countP Entry.isConnecting = 0) :
    s'.totals = s.totals := by
  rw [h.totals, hc, Nat.add_zero]

theorem teardown_of_none (out : Surface σ) (now : Nat) (ha : s.Alive) (hs : s.state ≠ .destroyed)
    (ht : s.transport = none) :
    Passes s (s.teardown out now) (farewell s.totals) ∧ (s.teardown out now).phase = .ended := by
  let d : Supervisor σ := { s with timer := s.timer.cancel }.destroyQueue out
  have hunload : Passes s d [] := unload ha
  have hfinish : Passes d (d.finish out) (farewell d.totals) :=
    finish (destroyQueue_queue out _) (by simpa [d] using hs)
  have htransport : d.transport = none := by simpa [d] using ht
  have hteardown : s.teardown out now = d.finish out := by
    simp only [Supervisor.teardown, d, htransport]
  rw [hunload.totals_eq rfl] at hfinish
  rw [hteardown]
  exact ⟨hunload.trans hfinish, rfl⟩

theorem teardown_of_some {attempt : Nat} (out : Surface σ) (now : Nat) (ha : s.Alive)
    (ht : s.transport = some attempt) :
    Passes s (s.teardown out now) [.closing attempt] ∧
      (s.teardown out now).phase = .closing (s.config.closeTimeout.after now) := by
  let d : Supervisor σ := { s with timer := s.timer.cancel }.destroyQueue out
  have hunload : Passes s d [] := unload ha
  have hclosing : Passes d { d with phase := .closing (d.config.closeTimeout.after now) } [] :=
    congr rfl rfl rfl rfl rfl rfl rfl rfl
  have htransport : d.transport = some attempt := by simpa [d] using ht
  have hteardown : s.teardown out now =
      { d with phase := .closing (d.config.closeTimeout.after now) }.note (.closing attempt) := by
    simp only [Supervisor.teardown, d, htransport]
  rw [hteardown, ← hunload.config]
  exact ⟨(hunload.trans hclosing).trans (note rfl rfl rfl), rfl⟩

theorem connect_of_halted (out : Surface σ) (now : Nat) (hb : s.Bare) (hs : s.state ≠ .destroyed)
    (hh : s.halted = true) :
    Passes s (s.connect out now) (farewell s.totals) ∧ (s.connect out now).phase = .ended := by
  rw [Supervisor.connect, if_pos hh]
  exact teardown_of_none out now (alive_of_none hb.queue) hs hb.transport

theorem connect_of_running (out : Surface σ) (now : Nat) (hs : s.state ≠ .connecting)
    (hh : s.halted = false) :
    Passes s (s.connect out now) [.connecting (s.totals.connects + 1) now, .state .connecting] ∧
      (s.connect out now).phase = .connecting := by
  have hstate : Passes s (s.setState .connecting) [.state .connecting] := setState _ hs
  have hstart : Passes (s.setState .connecting) { s.setState .connecting with
      phase := .connecting
      totals := { (s.setState .connecting).totals with
        connects := (s.setState .connecting).totals.connects + 1 }
      journal := .connecting ((s.setState .connecting).totals.connects + 1) now ::
        (s.setState .connecting).journal } [.connecting (s.totals.connects + 1) now] :=
    ⟨⟨rfl, rfl, rfl, rfl, rfl, by rw [setState_totals]; rfl⟩, .inl rfl, rfl, rfl⟩
  rw [Supervisor.connect, if_neg (by simp [hh])]
  exact ⟨hstate.trans hstart, rfl⟩

theorem opened (hs : s.state ≠ .opened) : Passes s s.opened
    [.event (.connected s.url), .state .opened, .opened s.totals.connects] := by
  let s₁ : Supervisor σ := { s with phase := .waiting, transport := some s.totals.connects }
  have hopen : Passes s s₁ [] := congr rfl rfl rfl rfl rfl rfl rfl rfl
  have hstate : Passes (s₁.note (.opened s.totals.connects)) _ [.state .opened] :=
    setState .opened hs
  exact ((hopen.trans (note rfl rfl rfl)).trans hstate).trans (emit (.connected s.url))

theorem lose {dropped : Journal} (out : Surface σ) (now : Nat) (why : Option Fault) (ha : s.Alive)
    (hs : s.state = .connecting ∨ s.state = .opened)
    (hd : s.transport.toList.map .transportDropped = dropped) :
    (Passes s (s.lose out now why) (farewell s.totals ++
        .event (.disconnected (why.map Fault.message)) :: dropped) ∧
      (s.lose out now why).phase = .ended) ∨
    (Passes s (s.lose out now why) ([.event (.reconnecting s.timer.delay),
        .state .reconnectPending, .armed now (s.timer.delay.alarm now),
        .event (.disconnected (why.map Fault.message))] ++ dropped) ∧
      (s.lose out now why).phase = .waiting) := by
  let d : Supervisor σ :=
    (s.dropTransport.destroyQueue out).emit (.disconnected (why.map Fault.message))
  have hdrop : Passes s s.dropTransport dropped := hd ▸ dropTransport s
  have hdestroy : Passes s.dropTransport (s.dropTransport.destroyQueue out) [] :=
    destroyQueue (by simpa [Alive] using ha)
  have htold : Passes s d (.event (.disconnected (why.map Fault.message)) :: dropped) :=
    (hdrop.trans hdestroy).trans (emit _)
  have hstate : d.state = s.state := by simp [d, Supervisor.emit, Supervisor.note]
  -- Whether the session goes on is asked only now that the loss was told.
  by_cases hh : d.halted = true
  · left
    have hcount : List.countP Entry.isConnecting
        (.event (.disconnected (why.map Fault.message)) :: dropped) = 0 := by
      simp [← hd, Entry.isConnecting]
    have hfinish : Passes d (d.finish out) (farewell d.totals) := by
      refine finish (destroyQueue_queue out _) ?_
      rw [hstate]
      rcases hs with hs | hs <;> simp [hs]
    have hlose : s.lose out now why = d.finish out := by
      change (if d.halted then d.finish out else _) = _
      rw [if_pos hh]
    rw [htold.totals_eq hcount] at hfinish
    rw [hlose]
    exact ⟨htold.trans hfinish, rfl⟩
  · right
    let w : Supervisor σ := { d with phase := .waiting, timer := d.timer.arm now }
    let r : Supervisor σ := w.note (.armed now (d.timer.delay.alarm now))
    have hwait : Passes d w [] := congr rfl rfl rfl rfl rfl rfl rfl rfl
    have harm : Passes d r [.armed now (d.timer.delay.alarm now)] := hwait.trans (note rfl rfl rfl)
    have hpending : Passes r (r.setState .reconnectPending) [.state .reconnectPending] := by
      refine setState _ ?_
      change d.state ≠ _
      rw [hstate]
      rcases hs with hs | hs <;> simp [hs]
    have hlose : s.lose out now why =
        (r.setState .reconnectPending).emit (.reconnecting d.timer.delay) := by
      change (if d.halted then _ else (r.setState .reconnectPending).emit _) = _
      rw [if_neg hh]
      rfl
    have hphase : (r.setState .reconnectPending).phase = .waiting := setState_phase r _
    rw [hlose, ← htold.delay]
    exact ⟨((htold.trans harm).trans hpending).trans (emit _), hphase⟩

end Passes

/-- What becomes of a session that handles an input. -/
inductive Handled (out : Surface σ) (s : Supervisor σ) (now : Nat) :
    Input → Supervisor σ → Prop where
  | frame {f : ByteArray} (hp : s.phase = .waiting) (ht : s.transport.isSome = true)
      (h : Plays out s (s.handleFrame out f)) :
      Handled out s now (.received (.frame f)) (s.handleFrame out f)
  | notice {n : Notice} {rest : List Notice} (hp : s.phase = .waiting) (hn : s.notices = n :: rest)
      (h : Plays out s ({ s with notices := rest }.handleNotice out n)) :
      Handled out s now (.notice n) ({ s with notices := rest }.handleNotice out n)
  | passage {i : Input} {s' : Supervisor σ} {told : Journal} (h : Passes s s' told)
      (hp : Passage s now i s'.phase told) : Handled out s now i s'

namespace Handled

variable {out : Surface σ} {s : Supervisor σ} {now : Nat}

theorem teardown (ha : s.Alive) (hs : s.state ≠ .destroyed) (hp : s.phase = .waiting) :
    Handled out s now .stop (s.teardown out now) := by
  cases ht : s.transport with
  | none =>
    obtain ⟨htold, hphase⟩ := Passes.teardown_of_none out now ha hs ht
    have hretired : Passage s now .stop .ended (Passes.farewell s.totals ++ []) :=
      .retired (.idle hp ht)
    exact .passage htold (hphase ▸ hretired)
  | some attempt =>
    obtain ⟨htold, hphase⟩ := Passes.teardown_of_some out now ha ht
    have hclosing : Passage s now .stop _ _ := .closing hp ht
    exact .passage htold (hphase ▸ hclosing)

/-- A connect, after what was told before it. -/
theorem connect {i : Input} {s₁ : Supervisor σ} {first : Journal} (hfirst : Passes s s₁ first)
    (hb : s₁.Bare) (hs : s₁.state = .disconnected ∨ s₁.state = .reconnectPending)
    (hretires : Retires s now i first)
    (hconnects : Passage s now i .connecting
      ([.connecting (s.totals.connects + 1) now, .state .connecting] ++ first))
    (hcount : first.countP Entry.isConnecting = 0) :
    Handled out s now i (s₁.connect out now) := by
  have htotals : s₁.totals = s.totals := hfirst.totals_eq hcount
  cases hh : s₁.halted with
  | true =>
    have hs : s₁.state ≠ .destroyed := by rcases hs with hs | hs <;> simp [hs]
    obtain ⟨htold, hphase⟩ := Passes.connect_of_halted out now hb hs hh
    rw [htotals] at htold
    exact .passage (hfirst.trans htold) (hphase ▸ .retired hretires)
  | false =>
    have hs : s₁.state ≠ .connecting := by rcases hs with hs | hs <;> simp [hs]
    obtain ⟨htold, hphase⟩ := Passes.connect_of_running out now hs hh
    rw [htotals] at htold
    exact .passage (hfirst.trans htold) (hphase ▸ hconnects)

/-- A loss, after what was told before it. -/
theorem lose {i : Input} {s₁ : Supervisor σ} {first dropped : Journal} (why : Option Fault)
    (hfirst : Passes s s₁ first) (ha : s₁.Alive)
    (hs : s₁.state = .connecting ∨ s₁.state = .opened)
    (hd : s₁.transport.toList.map .transportDropped = dropped)
    (hl : Loses s i (why.map Fault.message) (dropped ++ first))
    (hcount : first.countP Entry.isConnecting = 0) :
    Handled out s now i (s₁.lose out now why) := by
  have htotals : s₁.totals = s.totals := hfirst.totals_eq hcount
  rcases Passes.lose out now why ha hs hd with ⟨htold, hphase⟩ | ⟨htold, hphase⟩
  · have hretired : Passage s now i _ _ := .retired (.lost hl)
    rw [htotals] at htold
    exact .passage (hfirst.trans htold) (by simpa [hphase] using hretired)
  · have hlost : Passage s now i _ _ := .lost hl
    rw [hfirst.delay] at htold
    exact .passage (hfirst.trans htold) (by simpa [hphase] using hlost)

end Handled

/-- Whatever comes to be handled, a session plays or passes on. -/
theorem handled {out : Surface σ} {s : Supervisor σ} {now : Nat} {i : Input} (h : Sound s)
    (hi : Sound.Comes s now i) : Handled out s now i (s.handle out now i) := by
  cases hi with
  | begin hp hs hb =>
    exact .connect (.refl s) hb (.inl (h.of_spawned hp).1) (.unstarted hp) (.begin hp) rfl
  | stop hp hs ha hr =>
    -- A connect in progress is given up before the session is torn down.
    rcases hp with hp | hp
    · obtain ⟨hs, hb⟩ := h.of_connecting hp
      have habandon : Passes s s.abandonConnect [.abandoned s.totals.connects] :=
        .abandonConnect hp
      have hgone : s.abandonConnect = s.note (.abandoned s.totals.connects) := by
        rw [abandonConnect, if_pos hp]
      rw [handle]
      rw [hgone] at habandon ⊢
      have halive : (s.note (.abandoned s.totals.connects)).Alive := alive_of_none hb.queue
      have hne : (s.note (.abandoned s.totals.connects)).state ≠ .destroyed :=
        h.state_ne (by simp [hp])
      obtain ⟨htold, hphase⟩ := Passes.teardown_of_none out now halive hne hb.transport
      have hretired : Passage s now .stop .ended _ := .retired (.abandoned hp)
      exact .passage (habandon.trans htold) (hphase ▸ hretired)
    · have hgone : s.abandonConnect = s := by rw [abandonConnect, if_neg (by simp [hp])]
      rw [handle, hgone]
      exact .teardown ha (h.state_ne (by simp [hp])) hp
  | reconnect hp hs ht hq =>
    have hpending := h.of_lost hp ht
    have hcancel : Passes s { s with timer := s.timer.cancel } [] :=
      .congr rfl rfl rfl rfl rfl rfl rfl rfl
    have hfired : Passes s _ [.fired now] := hcancel.trans (.note rfl rfl rfl)
    exact .connect hfired ⟨ht, hq, rfl⟩ (.inr hpending.1) (.overdue hp ht) (.reconnect hp ht) rfl
  | notice hp hn =>
    rw [handle, hn]
    exact .notice hp hn (Plays.notice hp hn (h.ready hp))
  | connected hp hs hb =>
    have hstate : s.state ≠ .opened := by simp [(h.of_connecting hp).1]
    exact .passage (Passes.opened hstate) (by simpa [handle, opened, emit, note] using .opened hp)
  | connectFailed why hp hs hb =>
    obtain ⟨hs, _⟩ := h.of_connecting hp
    have hfailed : Passes s (s.note (.connectFailed s.totals.connects)) _ := .note rfl rfl rfl
    have hdropped : (s.note (.connectFailed s.totals.connects)).transport.toList.map
        Entry.transportDropped = [] := by simp [note, hb.transport]
    exact .lose (some why) hfailed (alive_of_none hb.queue) (.inl hs) hdropped (.failed why hp) rfl
  | received r hp hs ha ht =>
    obtain ⟨hs, hq, _⟩ := h.of_open hp ht
    obtain ⟨attempt, ht'⟩ := Option.isSome_iff_exists.mp ht
    have hdropped :
        s.transport.toList.map Entry.transportDropped = [.transportDropped attempt] := by
      simp [ht']
    cases r with
    | frame f =>
      cases hr : s.halted with
      | true =>
        have hsame : s.handleFrame out f = s := by rw [handleFrame, hr, if_pos rfl]
        exact .frame hp ht (by rw [hsame]; exact .well .refl hq)
      | false => exact .frame hp ht (Plays.frame f ⟨hp, ht, hr⟩ hq)
    | closed => exact .lose none (.refl s) ha (.inr hs) hdropped (.closed hp ht') rfl
    | failed why => exact .lose (some why) (.refl s) ha (.inr hs) hdropped (.broken why hp ht') rfl
  | closed hp hr hs hq =>
    obtain ⟨_, _, ht, _, _⟩ := h.of_closing hp
    obtain ⟨attempt, ht⟩ := Option.isSome_iff_exists.mp ht
    have hdrop : Passes s s.dropTransport _ := .dropTransport s
    have hfinish : Passes s.dropTransport (s.dropTransport.finish out) _ :=
      .finish (by simpa using hq) (by simpa using hs)
    rw [hdrop.totals_eq (by simp [Entry.isConnecting])] at hfinish
    rw [ht] at hdrop
    have hretired : Passage s now .closed .ended _ := .retired (.closed hp ht)
    exact .passage (hdrop.trans hfinish) hretired
  | broken _ _ ha => exact .passage (.crash ha) .broken

theorem Handled.tells {out : Surface σ} {s s' : Supervisor σ} {now : Nat} {i : Input}
    (h : Handled out s now i s') : ∃ told, Tells s s' told := by
  cases h with
  | frame _ _ h | notice _ _ h =>
    obtain ⟨_, _, _, htells⟩ := Tells.plays h
    exact ⟨_, htells⟩
  | passage h => exact ⟨_, h.toTells⟩

/-- Nothing is told or counted, and nothing changes hands. -/
structure Idles (s s' : Supervisor σ) : Prop extends Abreast s s' where
  passes : Passes s s' []
  queue : s'.queue = s.queue
  generation : s'.generation = s.generation

namespace Idles

variable (s : Supervisor σ)

theorem events {s s' : Supervisor σ} (h : Idles s s') :
    s'.journal.events = s.journal.events := h.passes.events.trans (List.append_nil _)

theorem states {s s' : Supervisor σ} (h : Idles s s') :
    s'.journal.states = s.journal.states := h.passes.states.trans (List.append_nil _)

theorem refl : Idles s s := ⟨.refl s, .refl s, rfl, rfl⟩

theorem requestStop : Idles s s.requestStop :=
  ⟨⟨rfl, rfl, rfl, rfl, rfl, fun _ => rfl⟩, .congr rfl rfl rfl rfl rfl rfl rfl rfl, rfl, rfl⟩

theorem stopIf (stop : Bool) : Idles s (s.stopIf stop) := by
  cases stop with
  | false => exact refl s
  | true => exact requestStop s

theorem touch (x : σ) : Idles s { s with surface := x } :=
  ⟨⟨rfl, rfl, rfl, rfl, rfl, id⟩, .congr rfl rfl rfl rfl rfl rfl rfl rfl, rfl, rfl⟩

theorem notify (n : Notice) : Idles s (s.notify n) := by
  have hnoted : Passes s (s.note (.notified n.generation)) [] :=
    ⟨.aside rfl, .inl rfl, rfl, rfl⟩
  have hheard : Passes (s.note (.notified n.generation))
      { s.note (.notified n.generation) with
        notices := (s.note (.notified n.generation)).notices ++ [n] } [] :=
    .congr rfl rfl rfl rfl rfl rfl rfl rfl
  unfold Supervisor.notify
  simp only
  split
  · exact ⟨⟨rfl, rfl, rfl, rfl, rfl, id⟩, hnoted, rfl, rfl⟩
  · exact ⟨⟨rfl, rfl, rfl, rfl, rfl, id⟩, hnoted.trans hheard, rfl, rfl⟩

end Idles

end Supervisor

namespace Plays

variable {out : Surface σ} {s s' : Supervisor σ}

/-- A session that did not go down did nothing but acts. -/
theorem acts (h : Plays out s s') (hp : s'.phase ≠ .crashed) : PlayActs out s s' := by
  cases h with
  | well h => exact h
  | crash | breakdown => exact absurd rfl hp

/-- While a connection is open, no other state is shown. -/
theorem states (h : Plays out s s') :
    s'.journal.states = s.journal.states ∧ s'.state = s.state := by
  obtain ⟨answers, _, dropped, htells⟩ := Tells.plays h
  have hnone : Journal.states
      (dropped.map .transportDropped ++ answers.reverse.map .event) = [] := by
    rw [Journal.states_append, Journal.states_transportDropped, Journal.states_emitted]
    rfl
  refine ⟨by rw [htells.states, hnone, List.append_nil], ?_⟩
  rw [htells.state, Journal.shown, hnone]
  rfl

/-- Nothing is told but what answers a frame. -/
theorem answers (h : Plays out s s') : ∃ answers : List Event,
    (∀ e ∈ answers, e.isAnswer = true ∧ s.transport.isSome = true) ∧
      s'.journal.events = s.journal.events ++ answers := by
  obtain ⟨answers, ha, dropped, htells⟩ := Tells.plays h
  refine ⟨answers, ha, ?_⟩
  rw [htells.events, Journal.events_append, Journal.events_transportDropped,
    Journal.events_emitted, List.reverse_reverse, List.append_nil]

end Plays

/-- What a step is to the supervisor: it idles, or handles what it admits. -/
inductive Takes (out : Surface σ) (m : Moment σ) : Moment σ → Prop where
  | idle {m' : Moment σ} (h : Idles m.supervisor m'.supervisor) : Takes out m m'
  | handle {i : Input} (stop : Bool) (hi : Admits m.supervisor m.now i)
      (hs : Sound (m.supervisor.stopIf stop))
      (h : Handled out (m.supervisor.stopIf stop) m.now i (m.handle out i stop).supervisor) :
      Takes out m (m.handle out i stop)

theorem Step.takes {out : Surface σ} {m m' : Moment σ} (hs : Sound m.supervisor)
    (h : Step out m m') : Takes out m m' := by
  cases h with
  | pass => exact .idle (.refl _)
  | stop => exact .idle (.requestStop _)
  | notify n => exact .idle (.notify _ n)
  | touch x => exact .idle (.touch _ x)
  | handle stop hi =>
    have hs' : Sound (m.supervisor.stopIf stop) := hs.stopIf stop
    exact .handle stop hi hs' (handled hs' (hs.comes hi stop))

/-- What a spawned session starts with holds of it at every moment, if it is kept while nothing is
told and by whatever is handled. -/
theorem Reachable.keeps {out : Surface σ} {P : Supervisor σ → Prop}
    (hspawn : ∀ url config surface tracing, P (.spawn url config surface tracing))
    (hidle : ∀ s s', Idles s s' → P s → P s')
    (hhandle : ∀ s s' now i, Sound s → Handled out s now i s' → P s → P s') {m : Moment σ}
    (h : Reachable out m) : P m.supervisor := by
  induction h with
  | spawn => exact hspawn _ _ _ _
  | step hm step ih =>
    cases step.takes hm.sound with
    | idle hi => exact hidle _ _ hi ih
    | handle stop _ hs hh => exact hhandle _ _ _ _ hs hh (hidle _ _ (.stopIf _ stop) ih)

end LivePlayback
