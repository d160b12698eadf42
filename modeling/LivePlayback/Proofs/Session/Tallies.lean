import LivePlayback.Proofs.Session.Course
import LivePlayback.Proofs.Session.Promptness

/-!
# Counting surfaces

The surface of the console takes every chunk and counts it. However often the codecs change and the
capture starts over, its counts are those of the media frames that found a queue.
-/

namespace LivePlayback
set_option autoImplicit false

open Supervisor

/-- How many bytes chunks have together. -/
def Journal.bytes (chunks : List (Nat × ByteArray)) : Nat := (chunks.map fun c => c.2.size).sum

namespace Supervisor

/-- The surface counted what was taken, and nothing else. -/
structure Tallied (s : Supervisor Tally) : Prop where
  fragments : s.surface.fragments = s.journal.taken.length
  bytes : s.surface.bytes = Journal.bytes s.journal.taken

namespace Tallied

variable {s s' : Supervisor Tally}

/-- The counts stand, and the journal grows by what nobody took. -/
theorem congr (h : s.Tallied) (entries : Journal) (he : ∀ e ∈ entries, e.taken? = none)
    (hj : s'.journal = entries ++ s.journal)
    (hs : s'.surface.fragments = s.surface.fragments ∧ s'.surface.bytes = s.surface.bytes) :
    s'.Tallied := by
  have htaken : s'.journal.taken = s.journal.taken := by
    have hnone : entries.filterMap Entry.taken? = [] := List.filterMap_eq_nil_iff.mpr he
    rw [hj, Journal.taken, Journal.select_append, Journal.select, Journal.select, hnone]
    exact List.append_nil _
  exact ⟨by rw [hs.1, htaken, h.fragments], by rw [hs.2, htaken, h.bytes]⟩

theorem note (h : s.Tallied) {e : Entry} (he : e.taken? = none) : (s.note e).Tallied :=
  h.congr [e] (by simpa using he) rfl ⟨rfl, rfl⟩

theorem absorb (h : s.Tallied) {a : Aftermath Tally}
    (ha : a.surface.fragments = s.surface.fragments ∧ a.surface.bytes = s.surface.bytes) :
    (s.absorb a).Tallied := by
  refine h.congr (Journal.ofNotices a.notices) (fun e he => ?_) rfl ha
  obtain ⟨n, _, rfl⟩ := Journal.mem_ofNotices_iff.mp he
  rfl

theorem hears (h : s.Tallied) (hh : Hears Tally.surface s s') : s'.Tallied := by
  induction hh with
  | refl => exact h
  | call _ ha ih => exact ih.absorb (by cases ha <;> exact ⟨rfl, rfl⟩)

theorem release (h : s.Tallied) (q : AppendQueue) : (s.release Tally.surface q).Tallied := by
  have hgone : Tallied { s with queue := none } := ⟨h.fragments, h.bytes⟩
  have hreleased : Tallied ({ s with queue := none }.note (.released q.generation)) :=
    hgone.note rfl
  exact (hreleased.absorb ⟨rfl, rfl⟩).note rfl

theorem announce (h : s.Tallied) (f : ByteArray) (codecs : Codecs)
    (hh : Hears Tally.surface ((s.register f).announce Tally.surface codecs) s') : s'.Tallied := by
  have hregistered : (s.register f).Tallied := ⟨h.fragments, h.bytes⟩
  have hdestroyed : ((s.register f).destroyQueue Tally.surface).Tallied := by
    rcases destroyQueue_cases Tally.surface (s.register f) with hd | ⟨q, _, hd⟩ <;> rw [hd]
    · exact ⟨hregistered.fragments, hregistered.bytes⟩
    · exact hregistered.release q
  have hasked : ((s.register f).announce Tally.surface codecs).Tallied :=
    ⟨hdestroyed.fragments, hdestroyed.bytes⟩
  exact hasked.hears hh

/-- A chunk that is taken is counted. -/
theorem accept (h : s.Tallied) (g : Nat) (chunk : ByteArray) (queue : Option AppendQueue) :
    Tallied { s.offerTo Tally.surface g chunk true with queue } := by
  have htaken : (s.offerTo Tally.surface g chunk true).journal.taken =
      s.journal.taken ++ [(g, chunk)] := by
    rw [← Journal.taken_books, offerTo_books, Journal.taken_offered, Journal.taken_books]
  refine ⟨?_, ?_⟩
  · simp only [htaken, List.length_append, List.length_singleton, ← h.fragments]
    rfl
  · have hbytes := h.bytes
    rw [Journal.bytes] at hbytes
    simp only [htaken, Journal.bytes, List.map_append, List.sum_append, ← hbytes, List.map_cons,
      List.map_nil, List.sum_singleton]
    rfl

theorem playAct (h : s.Tallied) (hp : PlayAct Tally.surface s s') : s'.Tallied := by
  cases hp with
  | hear hh => exact h.hears hh
  | accept => exact h.accept _ _ _
  | refuse _ _ _ _ ha => cases ha
  | install _ _ hh =>
    have hasked := h.announce _ _ hh
    exact ⟨hasked.fragments, hasked.bytes⟩
  | decline _ _ hh => exact (h.announce _ _ hh).note rfl
  | falter _ _ hh => exact h.announce _ _ hh
  | seek | malformed | publish | withhold | stray | enqueue | finish | ignore =>
    exact ⟨h.fragments, h.bytes⟩

theorem act (h : s.Tallied) (ha : Act Tally.surface s s') : s'.Tallied := by
  cases ha with
  | play hp => exact h.playAct hp
  | breakdown hb =>
    cases hb with
    | mk _ _ _ ha => cases ha
  | quiet hq =>
    obtain ⟨entries, he, hj⟩ := hq.journal
    refine h.congr entries (fun e hm => ?_) hj (by rw [hq.surface]; exact ⟨rfl, rfl⟩)
    have hquiet := he e hm
    cases e with
    | offered => cases hquiet
    | _ => rfl
  | release => exact h.release _
  | retire _ hs =>
    rw [setState, if_neg hs]
    exact ⟨h.fragments, h.bytes⟩
  | opened | drop | disconnect => exact ⟨h.fragments, h.bytes⟩

end Tallied

end Supervisor

theorem RankedStep.tallied {m m' : Moment Tally} (hm : Reachable Tally.surface m)
    (ht : m.supervisor.Tallied) (h : RankedStep Tally.surface Eq m m') :
    m'.supervisor.Tallied := by
  cases h with
  | pass => exact ht
  | stop => exact ⟨ht.fragments, ht.bytes⟩
  | notify n =>
    unfold Moment.update Supervisor.notify
    simp only
    split <;> exact ⟨ht.fragments, ht.bytes⟩
  | touch hx =>
    subst hx
    exact ht
  | handle stop hi =>
    exact ((Acts.of_admits hm.sound hi.admits stop).keep (fun _ _ _ act h => h.act act) hm.alive
      ht).2

theorem RankedRun.tallied {m m' : Moment Tally} (hm : Reachable Tally.surface m)
    (ht : m.supervisor.Tallied) (h : RankedRun Tally.surface Eq m m') : m'.supervisor.Tallied := by
  induction h with
  | refl => exact ht
  | tail h step ih => exact step.tallied (hm.run (RankedRun.run h)) ih

/-! ## The console -/

namespace Console

/-- Where a console can come to, with what it was started with. Time passes between its rounds. -/
inductive Reaches (args : List String) (read : String → Except IoFault ByteArray) :
    Console → Prop where
  | start {c : Console} (h : Console.start args read = .ok c) : Reaches args read c
  | round {c : Console} (h : Reaches args read c) : Reaches args read c.round.2.2
  | pass {c : Console} {later : Nat} (h : Reaches args read c) (hl : c.now ≤ later) :
      Reaches args read { c with now := later }

/-- The line with which the console ends. -/
def lastLine (fragments bytes : Nat) : String :=
  info s!"Replay finished fragments={fragments} bytes={bytes}"

theorem finish_text (c : Console) : c.finish.1.text =
    lastLine c.finish.2.supervisor.surface.fragments c.finish.2.supervisor.surface.bytes := rfl

def moment (c : Console) : Moment Tally := ⟨c.now, c.supervisor⟩

/-- The counts are those of the media frames that found a queue, also when they are told at last. -/
structure Counts (c : Console) : Prop where
  fragments : c.supervisor.surface.fragments = c.supervisor.journal.housed.length
  bytes : c.supervisor.surface.bytes = Journal.bytes c.supervisor.journal.housed
  told : c.finish.1.text = lastLine c.finish.2.supervisor.journal.housed.length
    (Journal.bytes c.finish.2.supervisor.journal.housed)

theorem exists_spawn_of_ready {capture : String} {content : Except IoFault ByteArray}
    {config : Config} {c : Console} (h : ready capture content config = .ok c) :
    ∃ url valid, c.moment = ⟨0, .spawn url valid .zero false⟩ := by
  unfold ready at h
  split at h
  · cases h
  · cases h
  · rename_i s hs
    obtain ⟨valid, rfl⟩ := Start.eq_spawn_of_running hs
    cases h
    exact ⟨_, valid, rfl⟩

/-- A console that starts has a fresh session. -/
theorem exists_spawn_of_start {args : List String} {read : String → Except IoFault ByteArray}
    {c : Console} (h : start args read = .ok c) :
    ∃ url config, c.moment = ⟨0, .spawn url config .zero false⟩ := by
  unfold start at h
  split at h
  · cases h
  · exact exists_spawn_of_ready h
  · split at h
    · cases h
    · exact exists_spawn_of_ready h

theorem Reaches.exists_run {args : List String} {read : String → Except IoFault ByteArray}
    {c : Console} (h : Reaches args read c) : ∃ url config,
      RankedRun Tally.surface Eq ⟨0, .spawn url config .zero false⟩ c.moment := by
  induction h with
  | start h =>
    obtain ⟨url, config, hspawn⟩ := exists_spawn_of_start h
    refine ⟨url, config, ?_⟩
    rw [hspawn]
    exact .refl
  | @round c _ ih =>
    obtain ⟨url, config, hrun⟩ := ih
    have hround : RankedRun Tally.surface Eq c.moment c.round.2.2.moment :=
      ranked_run c.turns c.supervisor c.host
    exact ⟨url, config, hrun.trans hround⟩
  | @pass c later _ hl ih =>
    obtain ⟨url, config, hrun⟩ := ih
    exact ⟨url, config, hrun.tail (.pass (m := c.moment) hl)⟩

end Console

/-! ## Sessions and consoles -/

/-- What is so at every moment of a session with prompt sinks. -/
structure Moment.KeepsUp {σ : Type} (m : Moment σ) : Prop where
  /-- Whatever is taken from the transport finds the queue at rest. -/
  rest : ∀ r, InTurn m.supervisor m.now (.received r) → ∀ q, m.supervisor.queue = some q →
    q.state = .idle ∧ q.pending = []
  /-- Every media frame that found a queue was taken by its sink, in order and at once. -/
  taken : m.journal.taken = m.journal.housed
  dropped : ∀ u ∈ m.journal.summaries, u.dropped = 0

/-- Prompt sinks never have a chunk waiting when something is taken from the transport, so none is
dropped; and the console counts all that came while there was a queue. -/
theorem prompt_sinks_keep_up :
    (∀ (σ : Type) (out : Surface σ) (drifts : σ → σ → Prop), out.Prompt →
      ∀ now url config x tracing m,
        RankedRun out drifts ⟨now, .spawn url config x tracing⟩ m → m.KeepsUp) ∧
    ∀ args read c, Console.Reaches args read c → c.Counts := by
  constructor
  · intro σ out drifts hout now url config x tracing m h
    have hserved : m.supervisor.Served :=
      h.served hout (.spawn now url config x tracing) (served_spawn url config x tracing)
    exact ⟨fun r hr q hq => hr.at_rest hserved hq, hserved.journal.taken, hserved.journal.dropped⟩
  · intro args read c h
    obtain ⟨url, config, hrun⟩ := h.exists_run
    have hcounts {m : Moment Tally}
        (hm : RankedRun Tally.surface Eq ⟨0, .spawn url config .zero false⟩ m) :
        m.supervisor.surface.fragments = m.journal.housed.length ∧
          m.supervisor.surface.bytes = Journal.bytes m.journal.housed := by
      have hborn : Reachable Tally.surface _ := .spawn 0 url config .zero false
      have htallied : m.supervisor.Tallied := hm.tallied hborn ⟨rfl, rfl⟩
      have htaken : m.journal.taken = m.journal.housed :=
        (hm.served Tally.prompt hborn (served_spawn url config _ _)).journal.taken
      exact ⟨htaken ▸ htallied.fragments, htaken ▸ htallied.bytes⟩
    obtain ⟨hfragments, hbytes⟩ := hcounts hrun
    have hfinish : RankedRun Tally.surface Eq c.moment c.finish.2.moment :=
      (Relation.ReflTransGen.single (.stop c.moment)).trans
        (ranked_run c.turns c.supervisor.requestStop c.host)
    obtain ⟨hfragments', hbytes'⟩ := hcounts (hrun.trans hfinish)
    refine ⟨hfragments, hbytes, ?_⟩
    rw [Console.finish_text]
    exact congrArg₂ Console.lastLine hfragments' hbytes'

/-- A session whose codecs change, and a console whose capture starts over after three seconds. -/
theorem prompt_sinks_keep_up_of_replay :
    let codecs (text : String) : ByteArray := FrameTag.codec.build text.toUTF8
    let media (text : String) : ByteArray := FrameTag.media.build text.toUTF8
    let m := Moment.scripted Tally.surface .zero
      [.frame (media "a"), .frame (codecs "avc1"), .frame (media "ab"), .frame (media "c"),
        .frame (codecs "hvc1"), .frame (media "d"), .closed, .frame (media "e")] 16
    let record (f : ByteArray) : ByteArray := Capture.lengthField f.size ++ f
    let read (_ : String) : Except IoFault ByteArray :=
      .ok (record (codecs "avc1") ++ record (media "ab") ++ record (media "c"))
    let c₀ : Console :=
      ⟨0, .spawn "file://capture" {} .zero false, .create ⟨"capture", read "capture"⟩ none, 0, 0⟩
    let c₁ := c₀.round.2.2.round.2.2.round.2.2.round.2.2
    let c₂ := { c₁ with now := 3000000000 }.round.2.2.round.2.2.round.2.2
    Tally.surface.Prompt ∧ m.KeepsUp ∧
      m.journal.housed = [(1, media "ab"), (1, media "c"), (2, media "d")] ∧
      Console.Reaches ["capture"] read c₂ ∧ c₂.Counts ∧ c₂.supervisor.surface.fragments = 4 := by
  intro codecs media m record read c₀ c₁ c₂
  have hrun : RankedRun Tally.surface Eq ⟨0, .spawn "ws://camera" {} .zero false⟩ m :=
    Moment.ranked_scripted _ _ _ _ _
  have hc₁ : Console.Reaches ["capture"] read c₁ := .round (.round (.round (.round (.start rfl))))
  have hlater : c₁.now ≤ 3000000000 := by decide +kernel
  have hc₂ : Console.Reaches ["capture"] read c₂ := .round (.round (.round (.pass hc₁ hlater)))
  exact ⟨Tally.prompt, prompt_sinks_keep_up.1 _ _ _ Tally.prompt _ _ _ _ _ _ hrun,
    by decide +kernel, hc₂, prompt_sinks_keep_up.2 _ _ _ hc₂, by decide +kernel⟩

end LivePlayback
