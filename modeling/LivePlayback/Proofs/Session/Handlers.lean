import LivePlayback.Proofs.Session.Acts

/-!
# Handlers of an open session

Frames and notices are handled by acts. This is where the handlers are opened, and the only place.
-/

namespace LivePlayback
set_option autoImplicit false

open Supervisor

variable {σ : Type} {out : Surface σ}

namespace Plays

variable {s s₁ s' : Supervisor σ}

theorem prepend (h : PlayActs out s s₁) (hp : Plays out s₁ s') : Plays out s s' := by
  cases hp with
  | well h' hr => exact .well (h.trans h') hr
  | crash h' => exact .crash (h.trans h')
  | breakdown h' hb => exact .breakdown (h.trans h') hb

/-- A call after which the handler goes on with the answer. -/
theorem call {α : Type} {r : Reply σ α} {andThen : Supervisor σ → α → Supervisor σ}
    (h : PlayActs out s (s₁.absorb r.toAftermath))
    (hk : ∀ a, r.answer = some a → Plays out s (andThen (s₁.absorb r.toAftermath) a)) :
    Plays out s (s₁.call out r andThen) := by
  unfold Supervisor.call
  split
  · rename_i a ha
    exact hk a ha
  · exact .crash h

/-! ## Queues -/

section Offer

variable {q : AppendQueue} {g : Nat} {chunk : ByteArray} {rest : List ByteArray}

theorem offer_accepted (ha : (out.append s.surface g chunk).answer = some none) :
    q.offer (sink out g) s (chunk :: rest) =
      ⟨{ q with state := .appending, pending := rest, issued := q.issued + 1 },
        s.offerTo out g chunk true, false⟩ := by
  have hs : (sink out g).append s chunk = (.accepted, s.offerTo out g chunk true) := by
    simp only [sink, ha, offerTo]
  rw [AppendQueue.offer, hs]

theorem offer_refused {why : Fault} (ha : (out.append s.surface g chunk).answer = some (some why)) :
    q.offer (sink out g) s (chunk :: rest) =
      { q with rejected := q.rejected + 1 }.offer (sink out g) (s.offerTo out g chunk false)
        rest := by
  have hs : (sink out g).append s chunk = (.refused why, s.offerTo out g chunk false) := by
    simp only [sink, ha, offerTo]
  rw [AppendQueue.offer, hs]

theorem offer_crashed (ha : (out.append s.surface g chunk).answer = none) :
    q.offer (sink out g) s (chunk :: rest) =
      ⟨{ q with pending := rest }, s.absorb (out.append s.surface g chunk).toAftermath, true⟩ := by
  have hs : (sink out g).append s chunk =
      (.crashed, s.absorb (out.append s.surface g chunk).toAftermath) := by simp only [sink, ha]
  rw [AppendQueue.offer, hs]

end Offer

/-- What is pending is offered until something is accepted. -/
theorem offer (chunks : List ByteArray) (q : AppendQueue) (s : Supervisor σ)
    (hw : s.phase = .waiting) (hd : q.state ≠ .destroyed) :
    Plays out { s with queue := some { q with state := .idle, pending := chunks } }
      (keepQueue out (q.offer (sink out q.generation) s chunks)) := by
  induction chunks generalizing q s with
  | nil =>
    refine .well .refl ?_
    rintro q' ⟨⟩
    exact ⟨nofun, fun _ => rfl⟩
  | cons chunk rest ih =>
    let s₀ : Supervisor σ :=
      { s with queue := some { q with state := .idle, pending := chunk :: rest } }
    cases ha : (out.append s.surface q.generation chunk).answer with
    | none =>
      have hb : Breaks out s₀ _ := .mk rfl rfl rfl ha
      have hcrash : keepQueue out (q.offer (sink out q.generation) s (chunk :: rest)) =
          Supervisor.crash out { s.absorb (out.append s.surface q.generation chunk).toAftermath with
            phase := .crashed
            queue := some { q with state := .idle, pending := rest } } := by
        rw [offer_crashed ha]
        exact crash_congr .crashed hd (by simp) rfl
      rw [hcrash]
      exact .breakdown .refl hb
    | some refusal =>
      cases refusal with
      | none =>
        have hact : PlayAct out s₀ _ := .accept hw rfl rfl rfl ha
        rw [offer_accepted ha]
        refine .well (.single hact) ?_
        rintro q' ⟨⟩
        exact ⟨nofun, nofun⟩
      | some why =>
        have hact : PlayAct out s₀ _ := .refuse hw rfl rfl rfl ha
        rw [offer_refused ha]
        exact prepend (.single hact) (ih { q with rejected := q.rejected + 1 }
          (s.offerTo out q.generation chunk false) hw hd)

theorem enqueue {f chunk : ByteArray} {q : AppendQueue} (hr : Receptive s)
    (hf : Content.ofFrame f = .ok (.media chunk)) (hq : s.queue = some q) (hd : q.Ready) :
    Plays out s ((s.register f).handleChunk out chunk) := by
  have hact : PlayAct out s _ := .enqueue hr hf hq hd
  have hchunk : (s.register f).handleChunk out chunk = keepQueue out (q.enqueue
      (sink out q.generation) chunk { s.register f with
        totals := { (s.register f).totals with chunks := s.totals.chunks + 1 } }) := by
    have hq' : (s.register f).queue = some q := hq
    simp only [handleChunk, hq']
    rfl
  rw [hchunk]
  cases hs : q.state with
  | destroyed => exact absurd hs hd.alive
  | appending =>
    rw [AppendQueue.enqueue_of_appending hs]
    refine .well (.single hact) ?_
    rintro q' ⟨⟩
    exact ⟨hd.alive, fun hi => absurd (hs.symm.trans hi) (by decide)⟩
  | idle =>
    have hp : q.pending = [] := hd.drained hs
    have hq' : { q with pending := q.pending ++ [chunk] } =
        { q with state := .idle, pending := [chunk] } := by rw [hp, hs]; rfl
    rw [AppendQueue.enqueue_of_idle hs, hp]
    rw [hq'] at hact
    exact prepend (.single hact) (offer [chunk] q { s.register f with
      totals := { (s.register f).totals with chunks := s.totals.chunks + 1 } } hr.phase hd.alive)

theorem notice {n : Notice} {rest : List Notice} (hw : s.phase = .waiting)
    (hn : s.notices = n :: rest) (hd : ∀ q, s.queue = some q → q.Ready) :
    Plays out s ({ s with notices := rest }.handleNotice out n) := by
  have hignore : Plays out s { s with notices := rest } := .well (.single (.ignore hn)) hd
  unfold handleNotice
  split
  · exact hignore
  · split
    · exact hignore
    · rename_i q hq
      have hq : s.queue = some q := hq
      split
      · rename_i hg
        cases ha : q.state with
        | destroyed => exact absurd ha (hd q hq).alive
        | idle =>
          rw [noteFinished, if_neg (by simp [ha]), AppendQueue.finish_of_idle ha]
          have hkeep : keepQueue out ⟨q, { s with notices := rest }, false⟩ =
              { s with notices := rest } := by simp [keepQueue, ← hq]
          rw [hkeep]
          exact hignore
        | appending =>
          have hact : PlayAct out s _ := .finish hn hq hg ha
          rw [noteFinished, if_pos ha, AppendQueue.finish_of_appending ha]
          exact prepend (.single hact) (offer q.pending
            { q with rejected := if n.rejection.isSome then q.rejected + 1 else q.rejected }
            (({ s with notices := rest } : Supervisor σ).note (.finished n.generation n.rejection))
            hw (hd q hq).alive)
      · exact hignore

/-! ## Frames -/

/-- A call on the way of an announcement. -/
theorem announcedCall {α : Type} {r : Reply σ α} {andThen : Supervisor σ → α → Supervisor σ}
    {f : ByteArray} {codecs : Codecs} (hr : Receptive s)
    (hf : Content.ofFrame f = .ok (.codecs codecs))
    (h : Hears out ((s.register f).announce out codecs) s₁)
    (hi : Inquiry out s₁.surface r.toAftermath)
    (hk : ∀ a, Hears out ((s.register f).announce out codecs) (s₁.absorb r.toAftermath) →
      Plays out s (andThen (s₁.absorb r.toAftermath) a)) :
    Plays out s (s₁.call out r andThen) :=
  .call (.single (.falter hr hf (.call h hi))) fun a _ => hk a (.call h hi)

theorem installSink {f : ByteArray} {codecs : Codecs} (hr : Receptive s)
    (hf : Content.ofFrame f = .ok (.codecs codecs)) :
    Plays out s ((s.register f).installSink out codecs) := by
  have hnone {s' : Supervisor σ} (h : Hears out ((s.register f).announce out codecs) s') :
      s'.queue = none := h.queue.trans (destroyQueue_queue out _)
  have hdecline {s' : Supervisor σ} (why : Fault)
      (h : Hears out ((s.register f).announce out codecs) s') :
      Plays out s (s'.reportUnsupported codecs why) := by
    refine .well (.single (.decline hr hf h)) fun q hq => ?_
    cases (hnone h).symm.trans hq
  unfold Supervisor.installSink
  refine announcedCall hr hf (.refl _) (.supports _) fun supported h => ?_
  split
  · exact hdecline _ h
  · refine announcedCall hr hf h (.createSink _ _) fun refusal h => ?_
    cases refusal with
    | some why => exact hdecline why h
    | none =>
      refine .well (.single (.install hr hf h)) ?_
      rintro q ⟨⟩
      exact ⟨nofun, fun _ => rfl⟩

theorem content {f : ByteArray} (hr : Receptive s) (hd : ∀ q, s.queue = some q → q.Ready) :
    Plays out s ((s.register f).handleContent out (Content.ofFrame f)) := by
  cases hf : Content.ofFrame f with
  | error why => exact .well (.single (.malformed hr hf)) hd
  | ok content =>
    cases content with
    | codecs codecs => exact installSink hr hf
    | metadata m =>
      simp only [handleContent, publishMetadata]
      split
      · exact .crash (.single (.withhold hr hf))
      · exact .well (.single (.publish hr hf)) hd
    | media chunk =>
      cases hq : s.queue with
      | some q => exact enqueue hr hf hq (hd q hq)
      | none =>
        have hstray : Plays out s _ :=
          .well (.single (.stray hr hf hq)) fun q h => by cases hq.symm.trans h
        have hq' : (s.register f).queue = none := hq
        simp only [handleContent, handleChunk, hq']
        rw [← hq']
        exact hstray

theorem catchUp (h : PlayActs out s s₁) (hd : ∀ q, s₁.queue = some q → q.Ready) :
    Plays out s (s₁.catchUp out) := by
  have hears {s' : Supervisor σ} (h' : Hears out s₁ s') : PlayActs out s s' :=
    h.tail (.hear h')
  have hwell {s' : Supervisor σ} (h' : Hears out s₁ s') : Plays out s s' :=
    .well (hears h') (h'.queue ▸ hd)
  unfold Supervisor.catchUp
  split
  · exact .well h hd
  · have h₁ := Hears.call (.refl s₁) (Inquiry.hidden : Inquiry out s₁.surface _)
    refine .call (hears h₁) fun hidden _ => ?_
    split
    · exact hwell h₁
    · have h₂ := Hears.call h₁ .bufferedEnd
      refine .call (hears h₂) fun bufferedEnd _ => ?_
      cases bufferedEnd with
      | none => exact hwell h₂
      | some bufferedEnd =>
        simp only
        generalize liveEdge _ bufferedEnd = target
        have h₃ := Hears.call h₂ (.seek target)
        refine .call (hears h₃) fun _ _ => ?_
        exact .well ((hears h₃).tail (.seek _ target)) (h₃.queue ▸ hd)

/-- A frame that is handled: its content comes first, then the live edge. -/
theorem frame (f : ByteArray) (hr : Receptive s) (hd : ∀ q, s.queue = some q → q.Ready) :
    Plays out s (s.handleFrame out f) := by
  have hcontent : Plays out s _ := content (f := f) hr hd
  unfold handleFrame
  rw [hr.running, if_neg (by decide)]
  generalize (s.register f).handleContent out (Content.ofFrame f) = s' at hcontent
  cases hcontent with
  | well h hr' =>
    have hp : s'.phase ≠ .crashed := by rw [h.abreast.phase, hr.phase]; nofun
    rw [if_neg hp]
    exact catchUp h hr'
  | crash h => exact .crash h
  | breakdown h hb => exact .breakdown h hb

end Plays

end LivePlayback
