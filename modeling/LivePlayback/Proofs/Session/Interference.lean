import LivePlayback.Proofs.Session.Accounts
import LivePlayback.Proofs.Session.Twins
import LivePlayback.Rehearsal.Stage

/-!
# Idle frames do not interfere

A session that comes across metadata, and frames of no use, plays what it would have played without
them. What happens to a session is a list of deeds here, so that a run can be compared with the
run that some of its idle frames are taken out of.
-/

namespace LivePlayback
set_option autoImplicit false

open Supervisor

variable {σ ρ : Type}

/-! ## Deeds -/

inductive Deed (σ : Type) where
  | pass (later : Nat)
  | stop
  | notify (n : Notice)
  | touch (x : σ)
  | handle (i : Input) (stop : Bool)

namespace Moment

/-- The deed may come next. -/
def Allows (m : Moment σ) : Deed σ → Prop
  | .pass later => m.now ≤ later
  | .handle i _ => Admits m.supervisor m.now i
  | .stop | .notify _ | .touch _ => True

def perform (out : Surface σ) (m : Moment σ) : Deed σ → Moment σ
  | .pass later => { m with now := later }
  | .stop => m.update requestStop
  | .notify n => m.update (Supervisor.notify · n)
  | .touch x => m.update fun s => { s with surface := x }
  | .handle i stop => m.handle out i stop

def play (out : Surface σ) (m : Moment σ) (ds : List (Deed σ)) : Moment σ :=
  ds.foldl (perform out) m

/-- The deeds may come one after the other. -/
def Follows (out : Surface σ) : Moment σ → List (Deed σ) → Prop
  | _, [] => True
  | m, d :: ds => m.Allows d ∧ Follows out (m.perform out d) ds

variable {out : Surface σ} {m m' : Moment σ}

theorem play_append (ds ds' : List (Deed σ)) :
    m.play out (ds ++ ds') = (m.play out ds).play out ds' :=
  List.foldl_append

theorem follows_append {ds ds' : List (Deed σ)} :
    m.Follows out (ds ++ ds') ↔ m.Follows out ds ∧ (m.play out ds).Follows out ds' := by
  induction ds generalizing m with
  | nil => simp [Follows, play]
  | cons d ds ih =>
    rw [List.cons_append, Follows, ih, Follows, and_assoc]
    rfl

theorem step_perform {d : Deed σ} (h : m.Allows d) : Step out m (m.perform out d) := by
  cases d with
  | pass => exact .pass h
  | stop => exact .stop m
  | notify n => exact .notify m n
  | touch x => exact .touch m x
  | handle i stop => exact .handle stop h

theorem step_iff : Step out m m' ↔ ∃ d, m.Allows d ∧ m' = m.perform out d := by
  constructor
  · intro h
    cases h with
    | pass h => exact ⟨.pass _, h, rfl⟩
    | stop => exact ⟨.stop, trivial, rfl⟩
    | notify n => exact ⟨.notify n, trivial, rfl⟩
    | touch x => exact ⟨.touch x, trivial, rfl⟩
    | handle stop h => exact ⟨.handle _ stop, h, rfl⟩
  · rintro ⟨d, h, rfl⟩
    exact step_perform h

theorem run_iff : Run out m m' ↔ ∃ ds, m.Follows out ds ∧ m' = m.play out ds := by
  constructor
  · intro h
    induction h with
    | refl => exact ⟨[], trivial, rfl⟩
    | tail _ hstep ih =>
      obtain ⟨ds, hds, rfl⟩ := ih
      obtain ⟨d, hd, rfl⟩ := step_iff.mp hstep
      exact ⟨ds ++ [d], follows_append.mpr ⟨hds, hd, trivial⟩, (play_append ds [d]).symm⟩
  · rintro ⟨ds, hds, rfl⟩
    induction ds generalizing m with
    | nil => exact .refl m
    | cons d ds ih => exact (Run.single (step_perform hds.1)).trans (ih hds.2)

end Moment

/-! ## What is left when a frame is taken out -/

namespace Supervisor

/-- Sinks report, and somebody may ask for a stop, while nothing is handled. -/
def overhear (s : Supervisor σ) (notices : List Notice) (stop : Bool) : Supervisor σ :=
  s.absorb ⟨s.surface, notices, stop⟩

variable {out : Surface σ} {view : σ → ρ} {s s' : Supervisor σ}

theorem overhear_nil (s : Supervisor σ) : s.overhear [] false = s := by
  simp [overhear, absorb, Journal.ofNotices]

theorem overhear_overhear (s : Supervisor σ) (notices notices' : List Notice) (stop stop' : Bool) :
    (s.overhear notices stop).overhear notices' stop' =
      s.overhear (notices ++ notices') (stop || stop') := by
  simp [overhear, absorb, Journal.ofNotices_append, Bool.or_assoc]

theorem overhear_notify (hp : s.phase = .waiting) (n : Notice) :
    s.notify n = s.overhear [n] false := by
  simp [notify, isOver, note, hp, overhear, absorb, Journal.ofNotices]

theorem overhear_stop (s : Supervisor σ) : s.requestStop = s.overhear [] true := by
  simp [requestStop, overhear, absorb, Journal.ofNotices]

theorem Twins.noteLeft (h : Twins view s s') {e : Entry} (he : e.idle = true) :
    Twins view (s.note e) s' := by
  cases h with
  | mk hx ht hj =>
    refine .mk hx ht ?_
    simp only [Supervisor.note, Journal.essence, List.filter_cons, he] at hj ⊢
    exact hj

/-- A twin of what becomes of a session hears what is reported meanwhile, and nothing else. -/
def Echoes (view : σ → ρ) (s s' : Supervisor σ) : Prop :=
  ∃ notices stop, Twins view s (s'.overhear notices stop)

namespace Echoes

theorem of_twins (h : Twins view s s') : Echoes view s s' :=
  ⟨[], false, (overhear_nil s').symm ▸ h⟩

theorem noteLeft (h : Echoes view s s') {e : Entry} (he : e.idle = true) :
    Echoes view (s.note e) s' := by
  obtain ⟨notices, stop, h⟩ := h
  exact ⟨notices, stop, h.noteLeft he⟩

theorem call {α : Type} {ask : σ → Reply σ α} {andThen : Supervisor σ → α → Supervisor σ}
    (h : Echoes view s s') (hask : Surface.Spares view ask)
    (hk : ∀ s₁ a, Echoes view s₁ s' → Echoes view (andThen s₁ a) s') :
    Echoes view (s.call out (ask s.surface) andThen) s' := by
  obtain ⟨notices, stop, h⟩ := h
  obtain ⟨hanswer, hview⟩ := hask s.surface
  generalize ask s.surface = r at hanswer hview
  have habsorbed : Echoes view (s.absorb r.toAftermath) s' := by
    refine ⟨notices ++ r.notices, stop || r.stop, ?_⟩
    rw [← overhear_overhear]
    refine h.absorb ?_
    simp only [Aftermath.seen, hview, h.surface]
  obtain ⟨a, ha⟩ := Option.isSome_iff_exists.mp hanswer
  unfold Supervisor.call
  rw [ha]
  exact hk _ a habsorbed

theorem catchUp (hout : out.Unswayed view) (h : Echoes view s s') :
    Echoes view (s.catchUp out) s' := by
  unfold Supervisor.catchUp
  split
  · exact h
  · refine h.call hout.hidden.2 fun s₁ hidden h => ?_
    split
    · exact h
    · refine h.call hout.bufferedEnd.2 fun s₂ bufferedEnd h => ?_
      cases bufferedEnd with
      | none => exact h
      | some bufferedEnd => exact h.call (hout.seek _).2 fun s₃ _ h => h.noteLeft rfl

/-- An idle frame is as good as what is reported while it is handled. -/
theorem handleFrame {f : ByteArray} (hout : out.Unswayed view) (hf : Content.idle f = true)
    (ht : s.tracing = false) (h : Twins view s s') : Echoes view (s.handleFrame out f) s' := by
  have hregistered : Twins view (s.register f) s' := by
    have hcounted : Twins view
        { s with totals := { s.totals with frames := s.totals.frames + 1 } } s' :=
      h.withTotals h.totals
    exact hcounted.noteLeft hf
  have hcontent : Twins view ((s.register f).handleContent out (Content.ofFrame f)) s' := by
    unfold Content.idle at hf
    cases hc : Content.ofFrame f with
    | error why => exact hregistered.withTotals hregistered.totals
    | ok content =>
      cases content with
      | metadata m =>
        have ht : (s.register f).tracing = false := ht
        simp only [handleContent, publishMetadata, ht, Bool.false_and]
        exact (hregistered.noteLeft rfl).noteLeft rfl
      | codecs | media => simp [hc] at hf
  unfold Supervisor.handleFrame
  split
  · exact .of_twins h
  · simp only
    split
    · exact .of_twins hcontent
    · exact (of_twins hcontent).catchUp hout

end Echoes

theorem Twins.admits {now : Nat} {i : Input} (h : Twins view s s') (hi : Admits s now i) :
    Admits s' now i := by
  cases h with
  | mk =>
    cases hi with
    | begin hp => exact .begin hp
    | stop hp hs => exact .stop hp hs
    | reconnect hp hs hd => exact .reconnect hp hs hd
    | notice hp hs hn => exact .notice hp hs hn
    | connected hp hs => exact .connected hp hs
    | connectFailed why hp hs => exact .connectFailed why hp hs
    | received r hp hs ht => exact .received r hp hs ht
    | closed hp => exact .closed hp
    | connectBroken hp hs => exact .connectBroken hp hs
    | transportBroken hp hs ht => exact .transportBroken hp hs ht
    | closeBroken hp => exact .closeBroken hp

theorem Twins.notify (h : Twins view s s') (n : Notice) :
    Twins view (s.notify n) (s'.notify n) := by
  have hnoted := h.note (.notified n.generation)
  have hover : (s.note (.notified n.generation)).isOver =
      (s'.note (.notified n.generation)).isOver := by
    rw [isOver, isOver, hnoted.phase]
  unfold Supervisor.notify
  simp only [← hover]
  split
  · exact hnoted
  · cases h with
    | mk => exact hnoted.withNotices _

end Supervisor

/-! ## Runs without some of their idle frames -/

namespace Moment

/-- What sinks report from one moment to the next, and whether somebody asks for a stop. -/
def reports (notices : List Notice) (stop : Bool) : List (Deed σ) :=
  notices.map .notify ++ if stop then [.stop] else []

/-- The deeds in the second list are those in the first one but for some idle frames. Whatever is
reported while such a frame is handled is reported all the same. -/
inductive Thins (out : Surface σ) (view : σ → ρ) :
    Moment σ → List (Deed σ) → List (Deed σ) → Prop where
  | nil (m : Moment σ) : Thins out view m [] []
  | keep {m : Moment σ} {d : Deed σ} {ds ds' : List (Deed σ)}
      (h : Thins out view (m.perform out d) ds ds') : Thins out view m (d :: ds) (d :: ds')
  /-- A touch is the same if it looks the same. -/
  | touch {m : Moment σ} {x x' : σ} {ds ds' : List (Deed σ)} (hx : view x = view x')
      (h : Thins out view (m.perform out (.touch x)) ds ds') :
      Thins out view m (.touch x :: ds) (.touch x' :: ds')
  | drop {m after : Moment σ} {f : ByteArray} {stop : Bool} {ds ds' : List (Deed σ)}
      (hf : Content.idle f = true) (hafter : after = m.handle out (.received (.frame f)) stop)
      (h : Thins out view after ds ds') :
      Thins out view m (.handle (.received (.frame f)) stop :: ds)
        (reports (after.supervisor.notices.drop m.supervisor.notices.length)
          after.supervisor.stopRequested ++ ds')

structure Twins (view : σ → ρ) (m m' : Moment σ) : Prop where
  now : m.now = m'.now
  supervisor : Supervisor.Twins view m.supervisor m'.supervisor

variable {out : Surface σ} {view : σ → ρ} {m m' : Moment σ} {ds ds' : List (Deed σ)}

theorem follows_reports (notices : List Notice) (stop : Bool) :
    m.Follows out (reports notices stop) := by
  induction notices generalizing m with
  | nil =>
    cases stop with
    | false => trivial
    | true => exact ⟨trivial, trivial⟩
  | cons n notices ih => exact ⟨trivial, ih⟩

theorem play_reports (hp : m.supervisor.phase = .waiting) (notices : List Notice) (stop : Bool) :
    m.play out (reports notices stop) =
      { m with supervisor := m.supervisor.overhear notices stop } := by
  induction notices generalizing m with
  | nil =>
    cases stop with
    | false => exact congrArg (Moment.mk m.now) (overhear_nil m.supervisor).symm
    | true => exact congrArg (Moment.mk m.now) (overhear_stop m.supervisor)
  | cons n notices ih =>
    have hnotify : m.perform out (.notify n) =
        { m with supervisor := m.supervisor.overhear [n] false } :=
      congrArg (Moment.mk m.now) (overhear_notify hp n)
    calc m.play out (reports (n :: notices) stop)
        = (m.perform out (.notify n)).play out (reports notices stop) := rfl
      _ = { m with supervisor := (m.supervisor.overhear [n] false).overhear notices stop } := by
        rw [hnotify]
        exact ih hp
      _ = { m with supervisor := m.supervisor.overhear (n :: notices) stop } := by
        rw [overhear_overhear, List.singleton_append, Bool.false_or]

theorem tracing_perform {d : Deed σ} (hm : Reachable out m) (hd : m.Allows d) :
    (m.perform out d).supervisor.tracing = m.supervisor.tracing := by
  have hstep : Step out m (m.perform out d) := step_perform hd
  generalize m.perform out d = m' at hstep ⊢
  cases hstep.takes hm.sound with
  | idle h => exact h.passes.tracing
  | handle stop _ _ h =>
    obtain ⟨_, htells⟩ := h.tells
    exact htells.tracing.trans (Idles.stopIf m.supervisor stop).passes.tracing

namespace Twins

theorem allows {d : Deed σ} (h : Twins view m m') (hd : m.Allows d) : m'.Allows d := by
  cases d with
  | pass later =>
    rw [Allows, ← h.now]
    exact hd
  | handle i stop =>
    rw [Allows, ← h.now]
    exact h.supervisor.admits hd
  | stop | notify | touch => trivial

theorem perform (hout : out.Unswayed view) (h : Twins view m m') (d : Deed σ) :
    Twins view (m.perform out d) (m'.perform out d) := by
  cases d with
  | pass => exact ⟨rfl, h.supervisor⟩
  | stop => exact ⟨h.now, h.supervisor.requestStop⟩
  | notify n => exact ⟨h.now, h.supervisor.notify n⟩
  | touch x => exact ⟨h.now, h.supervisor.withSurface rfl⟩
  | handle i stop =>
    refine ⟨h.now, ?_⟩
    have hhandled : Supervisor.Twins view ((m.supervisor.stopIf stop).handle out m.now i)
        ((m'.supervisor.stopIf stop).handle out m.now i) :=
      (h.supervisor.stopIf stop).handle hout i
    simpa only [Moment.perform, Moment.handle, Moment.update, h.now] using hhandled

/-- One of two twins gets an idle frame, the other one what is reported meanwhile. -/
theorem drop {f : ByteArray} {stop : Bool} (hout : out.Unswayed view) (h : Twins view m m')
    (hf : Content.idle f = true) (ht : m.supervisor.tracing = false)
    (hi : Admits m.supervisor m.now (.received (.frame f))) {after : Moment σ}
    (hafter : after = m.handle out (.received (.frame f)) stop) :
    Twins view after (m'.play out (reports
      (after.supervisor.notices.drop m.supervisor.notices.length)
      after.supervisor.stopRequested)) := by
  cases hi with
  | received _ hp hr =>
    -- A session that is stopped at this very moment does not look at the frame any more.
    have hechoes : Echoes view after.supervisor m'.supervisor := by
      rw [hafter]
      cases stop with
      | false => exact .handleFrame hout hf ht h.supervisor
      | true => exact ⟨[], true, overhear_stop m'.supervisor ▸ h.supervisor.requestStop⟩
    obtain ⟨notices, stopped, hechoes⟩ := hechoes
    have hnotices : after.supervisor.notices.drop m.supervisor.notices.length = notices := by
      rw [hechoes.notices, h.supervisor.notices]
      exact List.drop_left
    have hstopped : after.supervisor.stopRequested = stopped := by
      rw [hechoes.stopRequested, Supervisor.overhear, Supervisor.absorb,
        ← h.supervisor.stopRequested, hr, Bool.false_or]
    rw [hnotices, hstopped, play_reports (h.supervisor.phase ▸ hp)]
    exact ⟨by rw [hafter]; exact h.now, hechoes⟩

end Twins

theorem Thins.twins (hout : out.Unswayed view) (hthin : Thins out view m ds ds')
    (hm : Reachable out m) (ht : m.supervisor.tracing = false) (hds : m.Follows out ds)
    (h : Twins view m m') :
    m'.Follows out ds' ∧ Twins view (m.play out ds) (m'.play out ds') := by
  -- The first run is known to be one; that the second one is too comes out with the rest.
  induction hthin generalizing m' with
  | nil => exact ⟨trivial, h⟩
  | keep _ ih =>
    have hnext := hm.step (step_perform hds.1)
    obtain ⟨hfollows, htwins⟩ :=
      ih hnext ((tracing_perform hm hds.1).trans ht) hds.2 (h.perform hout _)
    exact ⟨⟨h.allows hds.1, hfollows⟩, htwins⟩
  | @touch m x x' _ _ hx _ ih =>
    have hnext := hm.step (step_perform hds.1)
    have htouched : Twins view (m.perform out (.touch x)) (m'.perform out (.touch x')) :=
      ⟨h.now, h.supervisor.withSurface hx⟩
    obtain ⟨hfollows, htwins⟩ :=
      ih hnext ((tracing_perform hm hds.1).trans ht) hds.2 htouched
    exact ⟨⟨trivial, hfollows⟩, htwins⟩
  | drop hf hafter _ ih =>
    have hnext := hm.step (step_perform hds.1)
    have htracing := tracing_perform hm hds.1
    have hdropped := h.drop hout hf ht hds.1 hafter
    subst hafter
    obtain ⟨hfollows, htwins⟩ := ih hnext (htracing.trans ht) hds.2 hdropped
    exact ⟨follows_append.mpr ⟨follows_reports _ _, hfollows⟩, play_append _ _ ▸ htwins⟩

/-- A frame that nothing is reported of leaves no trace. -/
theorem Thins.dropSilent {after : Moment σ} {f : ByteArray} {stop : Bool}
    (hf : Content.idle f = true) (hafter : after = m.handle out (.received (.frame f)) stop)
    (hn : after.supervisor.notices = m.supervisor.notices)
    (hs : after.supervisor.stopRequested = false) (h : Thins out view after ds ds') :
    Thins out view m (.handle (.received (.frame f)) stop :: ds) ds' := by
  have hdropped := Thins.drop hf hafter h
  rwa [hn, hs, List.drop_length] at hdropped

/-- However a run is cut in two, the shorter one can be cut at the same place. -/
theorem Thins.split {earlier later : List (Deed σ)}
    (h : Thins out view m (earlier ++ later) ds') :
    ∃ earlier' later', ds' = earlier' ++ later' ∧ Thins out view m earlier earlier' ∧
      Thins out view (m.play out earlier) later later' := by
  induction earlier generalizing m ds' with
  | nil => exact ⟨[], ds', rfl, .nil m, h⟩
  | cons d earlier ih =>
    cases h with
    | keep h =>
      obtain ⟨earlier', later', rfl, hearlier, hlater⟩ := ih h
      exact ⟨_ :: earlier', later', rfl, .keep hearlier, hlater⟩
    | touch hx h =>
      obtain ⟨earlier', later', rfl, hearlier, hlater⟩ := ih h
      exact ⟨_ :: earlier', later', rfl, .touch hx hearlier, hlater⟩
    | drop hf hafter h =>
      subst hafter
      obtain ⟨earlier', later', rfl, hearlier, hlater⟩ := ih h
      exact ⟨_, later', (List.append_assoc ..).symm, .drop hf rfl hearlier, hlater⟩

end Moment

/-! ## What is played -/

/-- A call of a sink, or the one that creates it. -/
def Entry.isSinkCall : Entry → Bool
  | .created _ _ | .offered _ _ _ | .released _ => true
  | _ => false

namespace Journal

def sinkCalls (j : Journal) : Journal := j.filter Entry.isSinkCall

theorem sinkCalls_essence (j : Journal) : j.essence.sinkCalls = j.sinkCalls := by
  unfold sinkCalls essence
  rw [List.filter_filter]
  congr 1
  funext e
  cases e <;> simp [Entry.isSinkCall, Entry.idle]

theorem states_essence (j : Journal) : j.essence.states = j.states :=
  select_filter (fun e he => by cases e <;> simp_all [Entry.idle, Entry.state?]) j

theorem events_essence (j : Journal) :
    j.essence.events = j.events.filter fun e => !e.isMetadata := by
  unfold events select essence
  rw [List.filterMap_filter, List.filter_reverse, List.filter_filterMap]
  congr 2
  funext e
  cases e with
  | event e => cases e <;> rfl
  | received f => simp [Entry.event?]
  | _ => rfl

end Journal

/-- Two sessions play the same, and say the same of it. -/
structure Moment.Agrees (m m' : Moment σ) : Prop where
  queue : m.supervisor.queue = m'.supervisor.queue
  state : m.supervisor.state = m'.supervisor.state
  states : m.journal.states = m'.journal.states
  sinkCalls : m.journal.sinkCalls = m'.journal.sinkCalls
  events : (m.journal.events.filter fun e => !e.isMetadata) =
    m'.journal.events.filter fun e => !e.isMetadata

theorem Moment.Twins.agrees {view : σ → ρ} {m m' : Moment σ} (h : m.Twins view m') :
    m.Agrees m' := by
  have hj : m.journal.essence = m'.journal.essence := h.supervisor.journal
  refine ⟨h.supervisor.queue, h.supervisor.state, ?_, ?_, ?_⟩
  · rw [← Journal.states_essence, hj, Journal.states_essence]
  · rw [← Journal.sinkCalls_essence, hj, Journal.sinkCalls_essence]
  · rw [← Journal.events_essence, hj, Journal.events_essence]

/-- Idle frames do not interfere with media. Whichever of them do not come in, what is left can
happen all the same, and at any point the session has played what it would have played with
them. -/
theorem idle_frames_do_not_interfere {out : Surface σ} {view : σ → ρ} {now : Nat} {url : String}
    {config : Config} {x : σ} {ds ds' : List (Deed σ)} (hout : out.Unswayed view)
    (hds : Moment.Follows out ⟨now, .spawn url config x false⟩ ds)
    (hthin : Moment.Thins out view ⟨now, .spawn url config x false⟩ ds ds') :
    let m : Moment σ := ⟨now, .spawn url config x false⟩
    m.Follows out ds' ∧ ∀ earlier later, ds = earlier ++ later →
      ∃ earlier' later', ds' = earlier' ++ later' ∧ m.Thins out view earlier earlier' ∧
        (m.play out earlier).Thins out view later later' ∧
        (m.play out earlier).Agrees (m.play out earlier') := by
  intro m
  have hm : Reachable out m := .spawn now url config x false
  have hself : m.Twins view m := ⟨rfl, .refl _⟩
  refine ⟨(hthin.twins hout hm rfl hds hself).1, ?_⟩
  rintro earlier later rfl
  obtain ⟨earlier', later', rfl, hearlier, hlater⟩ := hthin.split
  have hfollows := (Moment.follows_append.mp hds).1
  exact ⟨earlier', later', rfl, hearlier, hlater,
    (hearlier.twins hout hm rfl hfollows hself).2.agrees⟩

namespace Rehearsal.Stage

/-- All but what is put on record. -/
def unrecorded (s : Stage) : Stage := { s with shown := [], recorded := [] }

/-- A rehearsal puts a seek on record, which it does nothing else with. -/
theorem unswayed : surface.Unswayed unrecorded := by
  have hrecord {s s' : Stage} (h : s.unrecorded = s'.unrecorded) :
      ∃ shown recorded, s' = { s with shown, recorded } := by
    refine ⟨s'.shown, s'.recorded, ?_⟩
    cases s with
    | mk =>
      cases s' with
      | mk =>
        simp only [unrecorded, mk.injEq] at h ⊢
        simp [h]
  refine ⟨?_, ?_, ?_, ?_, ?_, ?_, ?_⟩
  · intro mimeType s s' h
    obtain ⟨shown, recorded, rfl⟩ := hrecord h
    rfl
  · intro codecs generation s s' h
    obtain ⟨shown, recorded, rfl⟩ := hrecord h
    simp only [surface, createSink]
    split
    · rfl
    · split
      · rfl
      · split <;> rfl
  · intro generation chunk s s' h
    obtain ⟨shown, recorded, rfl⟩ := hrecord h
    simp only [surface, append, record, reveal]
    split
    · rfl
    · split
      · rfl
      · cases s.completing <;> rfl
  · intro generation s s' h
    obtain ⟨shown, recorded, rfl⟩ := hrecord h
    simp only [surface, release]
    split <;> rfl
  · refine ⟨?_, fun s => ⟨rfl, rfl⟩⟩
    intro s s' h
    obtain ⟨shown, recorded, rfl⟩ := hrecord h
    rfl
  · refine ⟨?_, fun s => ⟨rfl, rfl⟩⟩
    intro s s' h
    obtain ⟨shown, recorded, rfl⟩ := hrecord h
    rfl
  · intro position
    refine ⟨?_, fun s => ⟨rfl, rfl⟩⟩
    intro s s' h
    obtain ⟨shown, recorded, rfl⟩ := hrecord h
    rfl

end Rehearsal.Stage

/-- A hidden surface is moved to the live edge by metadata, and by an empty frame, but the sink gets
the same chunk without them. -/
theorem idle_frames_do_not_interfere_with_chunk :
    let stage : Rehearsal.Stage :=
      { Rehearsal.Stage.create false with hidden := true, bufferedEnd := some 9 }
    let out := Rehearsal.Stage.surface
    let view := Rehearsal.Stage.unrecorded
    let m : Moment Rehearsal.Stage := ⟨0, .spawn "ws://camera" {} stage false⟩
    let frame (f : ByteArray) : Deed Rehearsal.Stage := .handle (.received (.frame f)) false
    let begun : List (Deed Rehearsal.Stage) := [.handle .begin false, .handle .connected false,
      frame (FrameTag.codec.build "avc1.4d401f".toUTF8)]
    let metadata := frame (FrameTag.metadata.build "\x7b\x7d".toUTF8)
    let media := frame (FrameTag.media.build "chunk".toUTF8)
    let ds := begun ++ [metadata, frame .empty, media]
    let ds' := begun ++ [media]
    m.Follows out ds ∧ m.Thins out view ds ds' ∧ m.Follows out ds' ∧
      (m.play out ds).Agrees (m.play out ds') ∧ (m.play out ds').journal.sinkCalls.length = 2 := by
  intro stage out view m frame begun metadata media ds ds'
  have hfollows : m.Follows out ds := by
    refine ⟨.begin rfl, .connected ?_ ?_, .received _ ?_ ?_ ?_, .received _ ?_ ?_ ?_,
      .received _ ?_ ?_ ?_, .received _ ?_ ?_ ?_, trivial⟩ <;> decide +kernel
  have hthin : m.Thins out view ds ds' := by
    refine .keep (.keep (.keep (.dropSilent ?_ rfl ?_ ?_
      (.dropSilent ?_ rfl ?_ ?_ (.keep (.nil _)))))) <;> decide +kernel
  obtain ⟨hfollows', hagrees⟩ :=
    idle_frames_do_not_interfere Rehearsal.Stage.unswayed hfollows hthin
  obtain ⟨earlier', later', hds', hearlier, hlater, hagrees⟩ :=
    hagrees ds [] (List.append_nil ds).symm
  cases hlater
  rw [List.append_nil] at hds'
  exact ⟨hfollows, hthin, hfollows', hds' ▸ hagrees, by decide +kernel⟩

end LivePlayback
