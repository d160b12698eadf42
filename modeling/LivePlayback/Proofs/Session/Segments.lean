import LivePlayback.Proofs.Session.Sinks

/-!
# Segments

The media frames that belong to a sink are those received after the announcement that created it
and before the next well-formed announcement or the loss of the transport; once a session is stopped
nothing is received any more. A sink is offered these frames, whole and in order, and no others.
-/

namespace LivePlayback
set_option autoImplicit false

open Supervisor

variable {σ : Type}

/-! ## Segments of a journal -/

def Content.announces (frame : ByteArray) : Bool :=
  match ofFrame frame with
  | .ok (.codecs _) => true
  | _ => false

def Content.isMedia (frame : ByteArray) : Bool :=
  match ofFrame frame with
  | .ok (.media _) => true
  | _ => false

theorem Content.announces_of_isMedia {f : ByteArray} (h : isMedia f = true) :
    announces f = false := by
  unfold isMedia at h
  unfold announces
  split at h
  · simp [*]
  · cases h

/-- A media frame is handed on whole, its tag included. -/
theorem Content.media_eq {f chunk : ByteArray} (h : Content.ofFrame f = .ok (.media chunk)) :
    chunk = f := by
  unfold ofFrame at h
  simp only at h
  split at h
  · cases h
  · cases h
    rfl
  · cases hm : Metadata.decode (f.extract 1 f.size) <;> simp [hm, Except.map] at h
  · split at h
    · cases h
    · rename_i text _
      cases hc : Codecs.ofText text <;> simp [hc, Except.map] at h

namespace Entry

def offeredTo? (g : Nat) : Entry → Option ByteArray
  | .offered g' chunk _ => if g' = g then some chunk else none
  | _ => none

/-- Entries that neither belong to a segment nor begin or end one. -/
def inert : Entry → Bool
  | .created _ _ | .received _ | .transportDropped _ | .offered _ _ _ => false
  | _ => true

end Entry

theorem Entry.inert_of_quiet {e : Entry} (h : e.quiet = true) : e.inert = true := by
  cases e with
  | created | received | transportDropped | offered => cases h
  | _ => rfl

namespace Journal

/-- The chunks that a sink was offered, accepted or not, oldest first. -/
def offers (j : Journal) (g : Nat) : List ByteArray := j.select (Entry.offeredTo? g)

/-- The sink to whose segment a media frame belongs that is received next. -/
def openSegment : Journal → Option Nat
  | [] => none
  | .created g _ :: _ => some g
  | .received f :: j => if Content.announces f then none else openSegment j
  | .transportDropped _ :: _ => none
  | _ :: j => openSegment j

/-- The media frames that belong to a sink, oldest first. -/
def segment (g : Nat) : Journal → List ByteArray
  | [] => []
  | .received f :: j =>
    if Content.isMedia f ∧ openSegment j = some g then segment g j ++ [f]
    else segment g j
  | _ :: j => segment g j

def lastFrame : Journal → Option ByteArray
  | [] => none
  | .received f :: _ => some f
  | _ :: j => lastFrame j

/-- Whenever a frame was received, the open segment was that of the living sink; and whenever a sink
was created, the frame received last had announced its codecs. -/
def Traced : Journal → Prop
  | [] => True
  | .received _ :: j => (∀ g, openSegment j = some g ↔ Unreleased j g) ∧ Traced j
  | .created _ codecs :: j =>
    (∃ f, lastFrame j = some f ∧ Content.ofFrame f = .ok (.codecs codecs)) ∧ Traced j
  | _ :: j => Traced j

theorem offers_cons (e : Entry) (j : Journal) (g : Nat) :
    offers (e :: j) g = offers j g ++ (e.offeredTo? g).toList := by
  unfold offers select
  cases h : e.offeredTo? g <;> simp [h]

section Inert

variable {e : Entry} (h : e.inert = true) (j : Journal)

include h

theorem openSegment_cons_of_inert : openSegment (e :: j) = j.openSegment := by
  cases e <;> first | rfl | cases h

theorem segment_cons_of_inert (g : Nat) : segment g (e :: j) = j.segment g := by
  cases e <;> first | rfl | cases h

theorem offers_cons_of_inert (g : Nat) : offers (e :: j) g = j.offers g := by
  cases e with
  | offered => cases h
  | _ => simp [offers_cons, Entry.offeredTo?]

theorem lastFrame_cons_of_inert : lastFrame (e :: j) = j.lastFrame := by
  cases e <;> first | rfl | cases h

theorem traced_cons_of_inert : Traced (e :: j) ↔ j.Traced := by
  cases e <;> first | rfl | cases h

end Inert

section

variable {entries : Journal} (h : ∀ e ∈ entries, e.inert = true) (j : Journal)

include h

theorem openSegment_append_of_inert : openSegment (entries ++ j) = j.openSegment :=
  append_of_passed (fun _ j he => openSegment_cons_of_inert he j) h j

theorem lastFrame_append_of_inert : lastFrame (entries ++ j) = j.lastFrame :=
  append_of_passed (fun _ j he => lastFrame_cons_of_inert he j) h j

theorem segment_append_of_inert (g : Nat) : segment g (entries ++ j) = j.segment g :=
  append_of_passed (fun _ j he => segment_cons_of_inert he j g) h j

theorem offers_append_of_inert (g : Nat) : offers (entries ++ j) g = j.offers g :=
  append_of_passed (f := (offers · g)) (fun _ j he => offers_cons_of_inert he j g) h j

end

theorem inert_of_mem_ofNotices {ns : List Notice} {e : Entry} (h : e ∈ ofNotices ns) :
    e.inert = true := by
  obtain ⟨n, _, rfl⟩ := mem_ofNotices_iff.mp h
  rfl

/-- The segments of a session that has come to this generation, and what was offered of them. -/
structure Segmented (j : Journal) (generation : Nat) : Prop where
  numbered : ∀ g, j.openSegment = some g → g ≤ generation
  fresh : ∀ g, generation < g → j.segment g = [] ∧ j.offers g = []
  ordered : ∀ g, j.offers g <+: j.segment g
  traced : j.Traced

namespace Segmented

variable {j entries : Journal} {e : Entry} {n n' g : Nat}

theorem mono (h : Segmented j n) (hn : n ≤ n') : Segmented j n' :=
  ⟨fun g hg => Nat.le_trans (h.numbered g hg) hn, fun g hg => h.fresh g (Nat.lt_of_le_of_lt hn hg),
    h.ordered, h.traced⟩

theorem note (h : Segmented j n) (he : e.inert = true) : Segmented (e :: j) n := by
  refine ⟨?_, ?_, ?_, (traced_cons_of_inert he j).mpr h.traced⟩
  · rw [openSegment_cons_of_inert he]
    exact h.numbered
  · intro g
    rw [segment_cons_of_inert he, offers_cons_of_inert he]
    exact h.fresh g
  · intro g
    rw [segment_cons_of_inert he, offers_cons_of_inert he]
    exact h.ordered g

theorem grow (h : Segmented j n) (he : ∀ e ∈ entries, e.inert = true) :
    Segmented (entries ++ j) n := by
  induction entries with
  | nil => exact h
  | cons e entries ih =>
    exact (ih fun e he' => he e (List.mem_cons_of_mem _ he')).note (he e List.mem_cons_self)

/-- A segment may end at any time, and the newest sink may begin its own. -/
theorem turn (h : Segmented j n)
    (he : (∃ attempt, e = .transportDropped attempt) ∨ ∃ codecs f, e = .created n codecs ∧
      j.lastFrame = some f ∧ Content.ofFrame f = .ok (.codecs codecs)) :
    Segmented (e :: j) n := by
  have hoffers (g : Nat) : offers (e :: j) g = j.offers g := by
    rcases he with ⟨_, rfl⟩ | ⟨_, _, rfl, _⟩ <;> simp [offers_cons, Entry.offeredTo?]
  have hsegment (g : Nat) : segment g (e :: j) = j.segment g := by
    rcases he with ⟨_, rfl⟩ | ⟨_, _, rfl, _⟩ <;> rfl
  refine ⟨?_, fun g => ?_, fun g => ?_, ?_⟩
  · rcases he with ⟨_, rfl⟩ | ⟨_, _, rfl, _⟩
    · exact nofun
    · rintro g ⟨⟩
      exact Nat.le_refl n
  · rw [hoffers, hsegment]
    exact h.fresh g
  · rw [hoffers, hsegment]
    exact h.ordered g
  · rcases he with ⟨_, rfl⟩ | ⟨_, f, rfl, hf⟩
    · exact h.traced
    · exact ⟨⟨f, hf⟩, h.traced⟩

/-- What comes next in a segment may be offered. -/
theorem offer {chunk : ByteArray} {rest : List ByteArray} (accepted : Bool) (h : Segmented j n)
    (hwhole : j.offers g ++ chunk :: rest = j.segment g) :
    Segmented (.offered g chunk accepted :: j) n := by
  have hother {g' : Nat} (hg : g ≠ g') :
      offers (.offered g chunk accepted :: j) g' = j.offers g' := by
    simp [offers_cons, Entry.offeredTo?, hg]
  refine ⟨h.numbered, fun g' hg' => ?_, fun g' => ?_, h.traced⟩
  · by_cases hg : g = g'
    · have hempty := (h.fresh g' hg').1
      rw [← hg, ← hwhole] at hempty
      simp at hempty
    · rw [hother hg]
      exact h.fresh g' hg'
  · by_cases hg : g = g'
    · obtain rfl := hg
      refine ⟨rest, ?_⟩
      rw [show segment g (.offered g chunk accepted :: j) = j.segment g from rfl, ← hwhole]
      simp [offers_cons, Entry.offeredTo?]
    · rw [hother hg]
      exact h.ordered g'

theorem receive {f : ByteArray} (h : Segmented j n)
    (haware : ∀ g, j.openSegment = some g ↔ j.Unreleased g) : Segmented (.received f :: j) n := by
  have hoffers (g : Nat) : offers (.received f :: j) g = j.offers g := by
    simp [offers_cons, Entry.offeredTo?]
  -- A segment may grow without its sink being offered more, so a prefix stays a prefix.
  refine ⟨fun g hg => ?_, fun g hg => ?_, fun g => ?_, haware, h.traced⟩
  · unfold openSegment at hg
    split at hg
    · cases hg
    · exact h.numbered g hg
  · have hclosed : j.openSegment ≠ some g := fun hg' =>
      absurd (h.numbered g hg') (Nat.not_le_of_lt hg)
    rw [hoffers, segment, if_neg fun h => hclosed h.2]
    exact h.fresh g hg
  · rw [hoffers, segment]
    split
    · exact (h.ordered g).trans (List.prefix_append _ _)
    · exact h.ordered g

end Segmented

end Journal

/-! ## Sessions -/

namespace Supervisor

/-- The sink that is held and what waits for it. -/
def load (s : Supervisor σ) : Option (Nat × List ByteArray) :=
  s.queue.map fun q => (q.generation, q.pending)

/-- The queue holds what is left of the open segment. -/
structure InStep (s : Supervisor σ) : Prop where
  segmented : s.journal.Segmented s.generation
  closed : s.transport = none → s.journal.openSegment = none
  current : Receptive s → s.journal.openSegment = s.load.map Prod.fst
  whole : s.phase ≠ .crashed → ∀ g pending, s.load = some (g, pending) →
    s.journal.offers g ++ pending = s.journal.segment g

namespace InStep

variable {out : Surface σ} {s s' : Supervisor σ}

theorem grow (h : s.InStep) (entries : Journal) (hj : s'.journal = entries ++ s.journal)
    (he : ∀ e ∈ entries, e.inert = true) (hg : s'.generation = s.generation)
    (ht : s'.transport = s.transport) (hr : Receptive s' → Receptive s) (hl : s'.load = s.load)
    (hp : s.phase = .crashed → s'.phase = .crashed ∨ s'.queue = none) : s'.InStep := by
  refine ⟨?_, ?_, ?_, ?_⟩
  · rw [hj, hg]
    exact h.segmented.grow he
  · rw [hj, ht, Journal.openSegment_append_of_inert he]
    exact h.closed
  · rw [hj, hl, Journal.openSegment_append_of_inert he]
    exact fun hr' => h.current (hr hr')
  · intro hp' g pending hl'
    have hne : s.phase ≠ .crashed := by
      intro hc
      rcases hp hc with hc' | hq
      · exact hp' hc'
      · simp [load, hq] at hl'
    rw [hj, Journal.offers_append_of_inert he, Journal.segment_append_of_inert he]
    exact h.whole hne g pending (hl ▸ hl')

/-- The same for a session that stands where it stood. -/
theorem abreast (h : s.InStep) (ha : Abreast s s') (entries : Journal)
    (hj : s'.journal = entries ++ s.journal)
    (he : ∀ e ∈ entries, e.inert = true) (hg : s'.generation = s.generation)
    (hl : s'.load = s.load) : s'.InStep :=
  h.grow _ hj he hg ha.transport ha.receptive hl fun hp => .inl (ha.phase.trans hp)

/-- Without a queue only the open segment matters. -/
theorem of_none (hs : s.journal.Segmented s.generation) (hq : s.queue = none)
    (ho : s.transport = none ∨ Receptive s → s.journal.openSegment = none) : s.InStep := by
  have hl : s.load = none := by rw [load, hq]; rfl
  refine ⟨hs, fun ht => ho (.inl ht), fun hr => ?_, fun _ g pending h => ?_⟩
  · rw [hl, ho (.inr hr)]
    rfl
  · cases hl.symm.trans h

theorem aware (h : s.InStep) (hacc : s.Accounted) (hr : Receptive s) (g : Nat) :
    s.journal.openSegment = some g ↔ s.journal.Unreleased g := by
  rw [h.current hr, hacc.held g, load, Option.map_map]
  rfl

theorem journal_release (out : Surface σ) (q : AppendQueue) (s : Supervisor σ) :
    ∃ entries : Journal, (∀ e ∈ entries, e.inert = true) ∧
      (s.release out q).journal = entries ++ s.journal := by
  refine ⟨.queueEnded q.summary ::
    (Journal.ofNotices (out.release s.surface q.generation).notices ++ [.released q.generation]),
    fun e he => ?_, by simp [release, note, absorb]⟩
  rcases List.mem_cons.mp he with rfl | he
  · rfl
  · rcases List.mem_append.mp he with he | he
    · exact Journal.inert_of_mem_ofNotices he
    · cases List.mem_singleton.mp he
      rfl

theorem journal_destroyQueue (out : Surface σ) (s : Supervisor σ) :
    ∃ entries : Journal, (∀ e ∈ entries, e.inert = true) ∧
      (s.destroyQueue out).journal = entries ++ s.journal := by
  rcases destroyQueue_cases out s with h | ⟨q, _, h⟩ <;> rw [h]
  · exact ⟨[], nofun, rfl⟩
  · exact journal_release out q s

/-! ### Frames -/

/-- A frame that neither is media nor announces anything leaves the segment as it is. -/
theorem other {f : ByteArray} (h : s.InStep) (hacc : s.Accounted) (hr : Receptive s)
    (ha : Content.announces f = false) (hm : Content.isMedia f = false) :
    (s.register f).InStep := by
  have hopen : Journal.openSegment (.received f :: s.journal) = s.journal.openSegment := by
    simp [Journal.openSegment, ha]
  have hsegment (g : Nat) : Journal.segment g (.received f :: s.journal) = s.journal.segment g := by
    simp [Journal.segment, hm]
  have hoffers (g : Nat) : Journal.offers (.received f :: s.journal) g = s.journal.offers g := by
    simp [Journal.offers_cons, Entry.offeredTo?]
  refine ⟨h.segmented.receive (h.aware hacc hr), ?_, ?_, ?_⟩
  · exact fun ht => hopen.trans (h.closed ht)
  · exact fun _ => hopen.trans (h.current hr)
  · intro hp g pending hl
    rw [register, note, hoffers, hsegment]
    exact h.whole hp g pending hl

theorem stray {f : ByteArray} (h : s.InStep) (hacc : s.Accounted) (hr : Receptive s)
    (ha : Content.announces f = false) (hq : s.queue = none) : (s.register f).InStep := by
  refine of_none (h.segmented.receive (h.aware hacc hr)) hq fun _ => ?_
  have hopen := h.current hr
  rw [load, hq] at hopen
  simpa [register, note, Journal.openSegment, ha] using hopen

theorem enqueued {f : ByteArray} {q : AppendQueue} (q' : AppendQueue) (h : s.InStep)
    (hacc : s.Accounted) (hr : Receptive s) (ha : Content.announces f = false)
    (hm : Content.isMedia f = true) (hq : s.queue = some q) (hg : q'.generation = q.generation)
    (hp : q'.pending = q.pending ++ [f]) :
    Supervisor.InStep { s.register f with queue := some q' } := by
  have hload : s.load = some (q.generation, q.pending) := by rw [load, hq]; rfl
  have hopen : s.journal.openSegment = some q.generation := by rw [h.current hr, hload]; rfl
  have hopen' : Journal.openSegment (.received f :: s.journal) = some q.generation := by
    simpa [Journal.openSegment, ha] using hopen
  refine ⟨h.segmented.receive (h.aware hacc hr), ?_, ?_, ?_⟩
  · exact fun ht => absurd hr.transport (by simp [show s.transport = none from ht])
  · intro _
    rw [show Supervisor.load _ = some (q'.generation, q'.pending) from rfl, hg]
    exact hopen'
  · intro hp' g pending hl
    have hwhole := h.whole hp' q.generation q.pending hload
    cases hl
    -- The frame goes to the end of the segment and to the end of what waits.
    rw [hg, hp]
    simp only [register, note, Journal.segment, hm, hopen, and_self, if_true, ← hwhole]
    simp [Journal.offers_cons, Entry.offeredTo?]

/-- An announcement ends the segment, whatever comes of it. -/
theorem announce {f : ByteArray} {codecs : Codecs} (h : s.InStep) (hacc : s.Accounted)
    (hr : Receptive s) (hf : Content.ofFrame f = .ok (.codecs codecs))
    (hears : Hears out ((s.register f).announce out codecs) s') :
    s'.journal.Segmented s.generation ∧ s'.journal.openSegment = none ∧
      s'.journal.lastFrame = some f ∧ s'.queue = none ∧ s'.generation = s.generation + 1 := by
  have hreceived : Journal.Segmented (.received f :: s.journal) s.generation :=
    h.segmented.receive (h.aware hacc hr)
  have hclosed : Journal.openSegment (.received f :: s.journal) = none := by
    simp [Journal.openSegment, Content.announces, hf]
  obtain ⟨entries, he, hj⟩ := journal_destroyQueue out (s.register f)
  obtain ⟨notices, _, hj'⟩ := hears.heard
  have hinert : ∀ e ∈ Journal.ofNotices notices ++ [.asked codecs.mimeType] ++ entries,
      e.inert = true := by
    intro e hm
    rcases List.mem_append.mp hm with hm | hm
    · rcases List.mem_append.mp hm with hm | hm
      · exact Journal.inert_of_mem_ofNotices hm
      · cases List.mem_singleton.mp hm
        rfl
    · exact he e hm
  have hjournal : s'.journal = (Journal.ofNotices notices ++ [.asked codecs.mimeType] ++ entries) ++
      .received f :: s.journal := by
    rw [hj', Supervisor.announce, note, hj]
    simp [register, note]
  have hgeneration : ((s.register f).destroyQueue out).generation = s.generation := by
    rcases destroyQueue_cases out (s.register f) with h | ⟨q, _, h⟩ <;> rw [h] <;> rfl
  refine ⟨?_, ?_, ?_, hears.queue.trans (destroyQueue_queue out _), ?_⟩
  · rw [hjournal]
    exact hreceived.grow hinert
  · rw [hjournal, Journal.openSegment_append_of_inert hinert]
    exact hclosed
  · rw [hjournal, Journal.lastFrame_append_of_inert hinert]
    rfl
  · rw [hears.generation, Supervisor.announce, note, hgeneration]

theorem offered {q : AppendQueue} (q' : AppendQueue) {chunk : ByteArray} {rest : List ByteArray}
    (accepted : Bool) (h : s.InStep) (hw : s.phase = .waiting) (hq : s.queue = some q)
    (hp : q.pending = chunk :: rest) (hg : q'.generation = q.generation) (hp' : q'.pending = rest) :
    Supervisor.InStep { s.offerTo out q.generation chunk accepted with queue := some q' } := by
  have hload : s.load = some (q.generation, chunk :: rest) := by rw [load, hq, ← hp]; rfl
  have hwhole := h.whole (by simp [hw]) q.generation (chunk :: rest) hload
  have hnoted : Supervisor.InStep { s.note (.offered q.generation chunk accepted) with
      queue := some q' } := by
    refine ⟨h.segmented.offer accepted hwhole, h.closed, fun hr => ?_, fun _ g pending hl => ?_⟩
    · rw [show Supervisor.load _ = some (q'.generation, q'.pending) from rfl, hg]
      exact (h.current ⟨hr.phase, hr.transport, hr.running⟩).trans (by rw [hload]; rfl)
    · cases hl
      rw [hg, hp', note, Journal.offers_cons]
      simpa [Entry.offeredTo?, Journal.segment] using hwhole
  exact hnoted.abreast (.absorb _ _) _ rfl (fun e => Journal.inert_of_mem_ofNotices) rfl rfl

theorem install {codecs : Codecs} {f : ByteArray} {n : Nat} (hs : s.journal.Segmented n)
    (hn : n < s.generation) (hl : s.journal.lastFrame = some f)
    (hf : Content.ofFrame f = .ok (.codecs codecs)) (ht : s.transport.isSome = true) :
    (s.install codecs).InStep := by
  obtain ⟨hsegment, hoffers⟩ := hs.fresh s.generation hn
  have hturn : Journal.Segmented (.created s.generation codecs :: s.journal) s.generation :=
    (hs.mono (Nat.le_of_lt hn)).turn (.inr ⟨codecs, f, rfl, hl, hf⟩)
  have hcreated : Supervisor.InStep { s.note (.created s.generation codecs) with
      queue := some (.create codecs s.generation) } := by
    refine ⟨hturn, fun hnone => ?_, fun _ => rfl, fun _ g pending hl => ?_⟩
    · exact absurd ht (by simp [show s.transport = none from hnone])
    · cases hl
      rw [note, Journal.offers_cons]
      simp [Entry.offeredTo?, Journal.segment, hsegment, hoffers, AppendQueue.create]
  exact hcreated.abreast (.note _ _) [.event (.codecChanged codecs)] rfl (by simp [Entry.inert]) rfl
    rfl

theorem playAct (hacc : s.Accounted) (hp : PlayAct out s s') (h : s.InStep) : s'.InStep := by
  have habreast := hp.abreast
  cases hp with
  | hear hears =>
    obtain ⟨notices, _, hj⟩ := hears.heard
    exact h.abreast habreast _ hj (fun e => Journal.inert_of_mem_ofNotices) hears.generation
      (by rw [load, hears.queue, load])
  | seek position =>
    exact h.abreast habreast [.sought position] rfl (by simp [Entry.inert]) rfl rfl
  | @malformed f why hr hf =>
    have hother := h.other (f := f) hacc hr (by simp [Content.announces, hf])
      (by simp [Content.isMedia, hf])
    exact hother.abreast ⟨rfl, rfl, rfl, rfl, rfl, id⟩ [] rfl nofun rfl rfl
  | @publish f m hr hf =>
    have hother := h.other (f := f) hacc hr (by simp [Content.announces, hf])
      (by simp [Content.isMedia, hf])
    exact hother.abreast ⟨rfl, rfl, rfl, rfl, rfl, id⟩ [.event (.metadata m), .metadata m] rfl
      (by simp [Entry.inert]) rfl rfl
  | @withhold f m hr hf =>
    exact h.other (f := f) hacc hr (by simp [Content.announces, hf]) (by simp [Content.isMedia, hf])
  | @stray f chunk hr hf hq =>
    have hstray := h.stray (f := f) hacc hr (by simp [Content.announces, hf]) hq
    exact hstray.abreast ⟨rfl, rfl, rfl, rfl, rfl, id⟩ [] rfl nofun rfl rfl
  | @enqueue f chunk q hr hf hq =>
    obtain rfl := Content.media_eq hf
    have henqueued := h.enqueued { q with pending := q.pending ++ [chunk] } hacc hr
      (by simp [Content.announces, hf]) (by simp [Content.isMedia, hf]) hq rfl rfl
    exact henqueued.abreast ⟨rfl, rfl, rfl, rfl, rfl, id⟩ [] rfl nofun rfl rfl
  | accept hw hq hi hp => exact h.offered _ true hw hq hp rfl rfl
  | refuse hw hq hi hp => exact h.offered _ false hw hq hp rfl rfl
  | finish _ hq =>
    exact h.abreast habreast [.finished _ _] rfl (by simp [Entry.inert]) rfl
      (by simp [load, hq])
  | ignore => exact h.abreast habreast [] rfl nofun rfl rfl
  | install hr hf hears =>
    obtain ⟨hs, _, hl, _, hg⟩ := h.announce hacc hr hf hears
    have ht := (hears.abreast.transport.trans (Abreast.announce _ _ s).transport)
    exact install hs (by omega) hl hf (ht ▸ hr.transport)
  | @decline s₁ f codecs why hr hf hears =>
    obtain ⟨hs, ho, _, hq, hg⟩ := h.announce hacc hr hf hears
    have hnone : s₁.InStep := of_none (hs.mono (by omega)) hq fun _ => ho
    exact hnone.abreast (.note _ _) [.event (.codecUnsupported codecs why.message)] rfl
      (by simp [Entry.inert]) rfl rfl
  | falter hr hf hears =>
    obtain ⟨hs, ho, _, hq, hg⟩ := h.announce hacc hr hf hears
    exact of_none (hs.mono (by omega)) hq fun _ => ho

/-! ### The rest of a session -/

theorem act (h : s.InStep) (hacc : s.Accounted) (hact : Act out s s') : s'.InStep := by
  cases hact with
  | play hp => exact playAct hacc hp h
  | breakdown hb =>
    cases hb with
    | @mk q chunk _ hq =>
      -- The chunk is lost without having been offered, so nothing is said of the whole any more.
      have hinert : ∀ e ∈ Journal.ofNotices (out.append s.surface q.generation chunk).notices,
          e.inert = true := fun e => Journal.inert_of_mem_ofNotices
      refine ⟨h.segmented.grow hinert, fun ht => ?_, nofun, fun hp => absurd rfl hp⟩
      exact (Journal.openSegment_append_of_inert hinert _).trans (h.closed ht)
  | quiet hquiet =>
    obtain ⟨entries, he, hj⟩ := hquiet.journal
    exact h.grow _ hj (fun e hm => Entry.inert_of_quiet (he e hm)) hquiet.generation
      hquiet.transport hquiet.receptive (by rw [load, hquiet.queue, load]) hquiet.broken
  | opened attempt ht hq => exact of_none (h.segmented.note rfl) hq fun _ => h.closed ht
  | @drop attempt ht =>
    refine ⟨h.segmented.turn (.inl ⟨attempt, rfl⟩), fun _ => rfl, fun hr => ?_,
      fun hp g pending hl => ?_⟩
    · exact absurd hr.transport (by simp [note])
    · have hoffers : Journal.offers (.transportDropped attempt :: s.journal) g =
          s.journal.offers g := by simp [Journal.offers_cons, Entry.offeredTo?]
      rw [note, hoffers]
      exact h.whole hp g pending hl
  | @release q hq hr =>
    obtain ⟨entries, he, hj⟩ := journal_release out q s
    refine of_none (hj ▸ h.segmented.grow he) rfl fun ho => ?_
    rw [hj, Journal.openSegment_append_of_inert he]
    rcases ho with ht | hr'
    · exact h.closed ht
    · exact absurd ((Abreast.release q s).receptive hr') hr
  | disconnect why hq =>
    exact h.abreast (.note _ _) [.event (.disconnected why)] rfl
      (by simp [Entry.inert]) rfl rfl
  | retire hq hs =>
    rw [setState, if_neg hs]
    refine h.grow [.event .stopped, .state .destroyed] rfl (by simp [Entry.inert]) rfl
      rfl (fun hr => ?_) rfl .inl
    exact absurd hr.running (by simp [halted, SessionState.terminal, emit, note])

theorem notify (h : s.InStep) (n : Notice) : (s.notify n).InStep := by
  have hn : (s.note (.notified n.generation)).InStep :=
    h.abreast (.note _ _) [.notified _] rfl (by simp [Entry.inert]) rfl rfl
  unfold Supervisor.notify
  simp only
  split
  · exact hn
  · exact hn.abreast ⟨rfl, rfl, rfl, rfl, rfl, id⟩ [] rfl nofun rfl rfl

theorem touch (h : s.InStep) (x : σ) : Supervisor.InStep { s with surface := x } :=
  h.abreast ⟨rfl, rfl, rfl, rfl, rfl, id⟩ [] rfl nofun rfl rfl

end InStep

end Supervisor

theorem Reachable.inStep {out : Surface σ} {m : Moment σ} (h : Reachable out m) :
    m.supervisor.InStep := by
  have hspawn (url : String) (config : Config) (x : σ) (tracing : Bool) :
      (Supervisor.spawn url config x tracing).Accounted ∧
        (Supervisor.spawn url config x tracing).InStep :=
    ⟨Accounted.spawn _ _ _ _, ⟨nofun, fun _ _ => ⟨rfl, rfl⟩, fun _ => List.prefix_rfl, trivial⟩,
      fun _ => rfl, fun _ => rfl, nofun⟩
  exact (h.invariant (P := fun s => s.Accounted ∧ s.InStep) hspawn
    (fun _ _ ha hact ⟨hacc, hin⟩ => ⟨hacc.act ha hact, hin.act hacc hact⟩)
    (fun _ n ⟨hacc, hin⟩ => ⟨hacc.notify n, hin.notify n⟩)
    fun _ x ⟨hacc, hin⟩ => ⟨hacc, hin.touch x⟩).2.2

namespace Journal

namespace Traced

variable {later earlier : Journal}

theorem suffix (h : Traced (later ++ earlier)) : earlier.Traced := by
  induction later with
  | nil => exact h
  | cons e later ih =>
    refine ih ?_
    cases e with
    | received | created => exact h.2
    | _ => exact h

end Traced

section Stray

variable {f : ByteArray} {later earlier : Journal} (ha : Content.announces f = false)
  (ho : earlier.openSegment = none)

include ha

/-- Only announcements among the frames change the open segment. -/
theorem openSegment_delete :
    openSegment (later ++ .received f :: earlier) = openSegment (later ++ earlier) := by
  induction later with
  | nil => simp [openSegment, ha]
  | cons e later ih =>
    cases e with
    | received f' => simp only [List.cons_append, openSegment, ih]
    | created | transportDropped => rfl
    | _ => exact ih

include ho

/-- A frame that comes while no segment is open is in none. -/
theorem segment_delete (g : Nat) :
    segment g (later ++ .received f :: earlier) = segment g (later ++ earlier) := by
  induction later with
  | nil => simp [segment, ho]
  | cons e later ih =>
    cases e with
    | received f' => simp only [List.cons_append, segment, openSegment_delete ha, ih]
    | _ => exact ih

end Stray

/-- The segments of a session, as its journal tells, and what its sinks were offered of them. -/
structure SegmentsKept (j : Journal) : Prop where
  /-- A sink is offered the frames of its segment from the first one on, in order and whole. -/
  ordered : ∀ g, j.offers g <+: j.segment g
  /-- A sink comes of the announcement received last. -/
  created : ∀ (later earlier : Journal) g codecs, j = later ++ .created g codecs :: earlier →
    ∃ f, earlier.lastFrame = some f ∧ Content.ofFrame f = .ok (.codecs codecs)
  /-- A frame that is received finds the segment of the living sink open, if there is one. -/
  received : ∀ (later earlier : Journal) f, j = later ++ .received f :: earlier →
    ∀ g, earlier.openSegment = some g ↔ earlier.Unreleased g
  /-- A media frame that finds no sink might as well not have come, for all that is offered. -/
  stray : ∀ (later earlier : Journal) f, j = later ++ .received f :: earlier →
    Content.isMedia f = true → earlier.Vacant → ∀ g, j.offers g <+: segment g (later ++ earlier)

end Journal

theorem offers_follow_segments {out : Surface σ} {m : Moment σ} (h : Reachable out m) :
    m.journal.SegmentsKept := by
  have hsegmented : m.journal.Segmented m.supervisor.generation := h.inStep.segmented
  have hreceived (later earlier : Journal) (f : ByteArray)
      (hj : m.journal = later ++ .received f :: earlier) (g : Nat) :
      earlier.openSegment = some g ↔ earlier.Unreleased g := by
    have htraced := hsegmented.traced
    rw [hj] at htraced
    exact htraced.suffix.1 g
  refine ⟨hsegmented.ordered, ?_, hreceived, ?_⟩
  · intro later earlier g codecs hj
    have htraced := hsegmented.traced
    rw [hj] at htraced
    exact htraced.suffix.1
  · intro later earlier f hj hm hvacant g
    have hclosed : earlier.openSegment = none := by
      cases ho : earlier.openSegment with
      | none => rfl
      | some g => exact absurd ((hreceived later earlier f hj g).mp ho) (hvacant g)
    have ha := Content.announces_of_isMedia hm
    have hordered := hsegmented.ordered g
    rwa [← Journal.segment_delete ha hclosed, ← hj]

/-- Of three frames for the first sink one waits when the second one is announced, and another
frame comes after the third announcement, which the surface does not support. -/
theorem offers_follow_segments_of_replacement :
    let frame (c : Char) : Reception := .frame (FrameTag.media.build (String.singleton c).toUTF8)
    let codecs (text : String) : Reception := .frame (FrameTag.codec.build text.toUTF8)
    let m := Moment.scripted Rehearsal.Stage.surface
      { Rehearsal.Stage.create false with unsupported := ["av01"] }
      [codecs "avc1", frame 'a', frame 'b', codecs "hvc1", frame 'c', codecs "av01", frame 'd'] 16
    m.journal.offers 1 = [FrameTag.media.build "a".toUTF8] ∧
      m.journal.offers 2 = [FrameTag.media.build "c".toUTF8] ∧ m.journal.SegmentsKept :=
  ⟨by decide +kernel, by decide +kernel, offers_follow_segments (Moment.reachable_scripted _ _ _ _)⟩

end LivePlayback
