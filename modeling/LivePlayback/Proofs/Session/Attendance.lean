import LivePlayback.Proofs.Session.Transports

/-!
# Attendance

A host can keep watch over the use that a session makes of its transports. Whatever connector and
transports it stands for, the watch never finds them misused, and what the journal tells of them is
in order.
-/

namespace LivePlayback
set_option autoImplicit false

open Supervisor

variable {σ η : Type}

/-- What a host can tell of its newest transport. -/
inductive Usage where
  | vacant
  | live
  /-- It gave its last answer. -/
  | ended
  | closing
  | closed
  /-- It was called when it must not be, or when there was none. -/
  | misused
  deriving DecidableEq

namespace Usage

def connected : Usage → Readiness Connection → Usage
  | .vacant, .ready .opened => .live
  | .vacant, _ => .vacant
  | _, _ => .misused

def received : Usage → Readiness Reception → Usage
  | .live, .ready .closed | .live, .ready (.failed _) => .ended
  | .live, _ => .live
  | _, _ => .misused

/-- To close takes as long as the transport needs, and is asked for again until it is done. -/
def closes : Usage → Readiness Unit → Usage
  | .live, .ready _ | .closing, .ready _ => .closed
  | .live, _ | .closing, _ => .closing
  | _, _ => .misused

def abandoned : Usage → Usage
  | .vacant => .vacant
  | _ => .misused

def dropped : Usage → Usage
  | .vacant | .misused => .misused
  | _ => .vacant

end Usage

def HostReply.watched {α : Type} (r : HostReply η α) (usage : Usage) : HostReply (η × Usage) α :=
  ⟨r.answer, (r.host, usage), r.stop, r.cost⟩

/-- The same host, keeping watch. -/
def Host.wary (host : Host η) : Host (η × Usage) where
  connect e now url :=
    let r := host.connect e.1 now url
    r.watched (e.2.connected r.answer)
  receive e now :=
    let r := host.receive e.1 now
    r.watched (e.2.received r.answer)
  close e now :=
    let r := host.close e.1 now
    r.watched (e.2.closes r.answer)
  abandon e := (host.abandon e.1, e.2.abandoned)
  drop e := (host.drop e.1, e.2.dropped)

/-- What comes of a turn, the watch apart. -/
structure Supervisor.Driven.Shadows (d : Driven σ (η × Usage)) (d' : Driven σ η) : Prop where
  supervisor : d.supervisor = d'.supervisor
  host : d.host.1 = d'.host
  pause : d.pause = d'.pause
  cost : d.cost = d'.cost

/-- A session that takes its turns against a wary host. Between two turns time passes, a stop is
asked for, sinks report, and surface and host change on their own. -/
inductive Attended (out : Surface σ) (host : Host η) : Moment σ → η × Usage → Prop where
  | spawn (now : Nat) (url : String) (config : Config) (x : σ) (tracing : Bool) (h : η) :
      Attended out host ⟨now, .spawn url config x tracing⟩ (h, .vacant)
  | pass {m : Moment σ} {e : η × Usage} {later : Nat} (hm : Attended out host m e)
      (hn : m.now ≤ later) : Attended out host { m with now := later } e
  | stop {m : Moment σ} {e : η × Usage} (hm : Attended out host m e) :
      Attended out host (m.update requestStop) e
  | notify {m : Moment σ} {e : η × Usage} (hm : Attended out host m e) (n : Notice) :
      Attended out host (m.update (Supervisor.notify · n)) e
  | touch {m : Moment σ} {e : η × Usage} (hm : Attended out host m e) (x : σ) :
      Attended out host (m.update fun s => { s with surface := x }) e
  | act {m : Moment σ} {e : η × Usage} (hm : Attended out host m e) (h : η) :
      Attended out host m (h, e.2)
  | turn {m : Moment σ} {e : η × Usage} (hm : Attended out host m e) :
      Attended out host (m.update fun s => (s.step out host.wary m.now e).supervisor)
        (m.supervisor.step out host.wary m.now e).host

theorem Attended.reachable {out : Surface σ} {host : Host η} {m : Moment σ} {e : η × Usage}
    (h : Attended out host m e) : Reachable out m := by
  induction h with
  | spawn => exact .spawn _ _ _ _ _
  | pass _ hn ih => exact ih.step (.pass hn)
  | stop _ ih => exact ih.step (.stop _)
  | notify _ n ih => exact ih.step (.notify _ n)
  | touch _ x ih => exact ih.step (.touch _ x)
  | act _ _ ih => exact ih
  | @turn m e _ ih => exact ih.run (run_step m.supervisor e)

namespace Usage

/-- What the watch has seen agrees with what the session holds. -/
def Suits (s : Supervisor σ) : Usage → Prop
  | .vacant => s.transport = none
  | .live => s.transport.isSome = true
  | .closing => s.transport.isSome = true ∧ ∃ deadline, s.phase = .closing deadline
  | .ended | .closed | .misused => False

/-- What is left once a session has gone on to another moment. -/
def after (s next : Supervisor σ) (u : Usage) : Usage :=
  let u := if s.phase = .connecting ∧ next.phase ≠ .connecting ∧ next.transport.isNone
    then u.abandoned else u
  if s.transport.isSome ∧ next.transport.isNone then u.dropped else u

variable {out : Surface σ} {s s' : Supervisor σ} {u : Usage} {now : Nat} {i : Input}

theorem Suits.abreast (h : u.Suits s) (ha : Abreast s s') : u.Suits s' := by
  unfold Suits at h ⊢
  rw [ha.phase, ha.transport]
  exact h

theorem Suits.vacant_iff (h : u.Suits s) : u = .vacant ↔ s.transport = none := by
  have hsome (hu : u ≠ .vacant) : s.transport.isSome = true := by
    cases u with
    | vacant => exact absurd rfl hu
    | live => exact h
    | closing => exact h.1
    | ended | closed | misused => exact h.elim
  constructor
  · rintro rfl
    exact h
  · intro ht
    by_contra hu
    exact absurd ht (Option.isSome_iff_ne_none.mp (hsome hu))

theorem Suits.live (h : u.Suits s) (hp : s.phase = .waiting) (ht : s.transport.isSome = true) :
    u = .live := by
  cases u with
  | live => rfl
  | vacant => simp_all [Suits]
  | closing =>
    obtain ⟨_, deadline, hp'⟩ := h
    simp [hp] at hp'
  | ended | closed | misused => exact h.elim

theorem Suits.closes (h : u.Suits s) (ht : s.transport.isSome = true) :
    u.closes (.ready ()) = .closed ∧
      ∀ answer, (∀ a, answer ≠ .ready a) → u.closes answer = .closing := by
  cases u with
  | vacant =>
    have hnone : s.transport = none := h
    simp [hnone] at ht
  | live | closing =>
    refine ⟨rfl, fun answer ha => ?_⟩
    cases answer with
    | ready => exact absurd rfl (ha ())
    | later | soon => rfl
  | ended | closed | misused => exact h.elim

theorem suits_after_gone (hu : u ≠ .misused) (hv : u = .vacant ↔ s.transport = none)
    (hs : Sound s) (ht : s'.transport = none) : (u.after s s').Suits s' := by
  have hgone : u.after s s' = .vacant := by
    by_cases hnone : s.transport = none
    · obtain rfl := hv.mpr hnone
      simp [after, hnone, abandoned]
    · -- There is no transport yet while a session connects.
      have hp : s.phase ≠ .connecting := fun hp => hnone (hs.of_connecting hp).2.transport
      have hsome : s.transport.isSome = true := Option.isSome_iff_ne_none.mpr hnone
      have hdropped : u.dropped = .vacant := by
        cases u with
        | vacant => exact absurd (hv.mp rfl) hnone
        | misused => exact absurd rfl hu
        | _ => rfl
      simp [after, hp, hsome, ht, hdropped]
  rw [hgone]
  exact ht

theorem suits_after_live (ht : s'.transport.isSome = true) :
    (Usage.live.after s s').Suits s' := by
  have hnone : s'.transport.isNone = false := by simpa [← Option.not_isSome] using ht
  have hlive : Usage.live.after s s' = .live := by simp [after, hnone]
  rw [hlive]
  exact ht

/-- Whatever is handled: what the session lets go was there, and what it keeps is live. -/
theorem suits_handle (hs : Sound s) (hi : Sound.Comes s now i) (hc : i ≠ .connected)
    (hu : u ≠ .misused) (hv : u = .vacant ↔ s.transport = none)
    (hl : i.ends = false → u = .vacant ∨ u = .live) :
    (u.after s (s.handle out now i)).Suits (s.handle out now i) := by
  rcases handle_transport out hs hi with ht | ⟨he, ht⟩ | ⟨rfl, _⟩
  · exact suits_after_gone hu hv hs ht
  · rcases hl he with rfl | rfl
    · exact suits_after_gone hu hv hs (ht.trans (hv.mp rfl))
    · refine suits_after_live ?_
      rw [ht, Option.isSome_iff_ne_none]
      exact fun hnone => absurd (hv.mpr hnone) nofun
  · exact absurd rfl hc

end Usage

namespace Supervisor

variable {out : Surface σ} {host : Host η} {s : Supervisor σ} {now : Nat} {e : η × Usage}

theorem shadows_handleWith (s : Supervisor σ) (e : η × Usage) (i : Input) (cost : Nat) :
    (handleWith out host.wary now s e i cost).Shadows (handleWith out host now s e.1 i cost) := by
  unfold handleWith
  simp only
  split_ifs <;> exact ⟨rfl, rfl, rfl, rfl⟩

theorem shadows_pauseWith {α : Type} (s : Supervisor σ) (r : HostReply η α) (u : Usage)
    (pause : Pause) : (s.pauseWith (r.watched u) pause).Shadows (s.pauseWith r pause) := by
  unfold pauseWith
  split_ifs <;> first | exact ⟨rfl, rfl, rfl, rfl⟩ | contradiction

theorem shadows_settle {α : Type} (s : Supervisor σ) (r : HostReply η α) (u : Usage)
    (input : α → Input) : (s.settle out host.wary now (r.watched u) input).Shadows
      (s.settle out host now r input) := by
  unfold settle
  cases ha : r.answer with
  | ready a => simpa only [HostReply.watched, ha] using shadows_handleWith _ (r.host, u) _ _
  | later | soon => simpa only [HostReply.watched, ha] using shadows_pauseWith s r u _

/-- Keeping watch changes nothing. -/
theorem shadows_step (s : Supervisor σ) (e : η × Usage) :
    (s.step out host.wary now e).Shadows (s.step out host now e.1) := by
  unfold step
  split
  · exact shadows_handleWith s e _ _
  · exact shadows_settle s _ _ _
  · exact shadows_settle s _ _ _
  · have hclose : host.wary.close e now =
        (host.close e.1 now).watched (e.2.closes (host.close e.1 now).answer) := rfl
    rw [hclose]
    generalize host.close e.1 now = r
    generalize e.2.closes r.answer = u
    cases ha : r.answer with
    | ready => simpa only [HostReply.watched, ha] using shadows_handleWith _ (r.host, u) _ _
    | later | soon =>
      simp only [HostReply.watched, ha]
      split
      · exact shadows_handleWith s (r.host, u) _ _
      · exact ha ▸ shadows_pauseWith s r u _
  · exact ⟨rfl, rfl, rfl, rfl⟩
  · exact ⟨rfl, rfl, rfl, rfl⟩

theorem handleWith_wary (i : Input) (cost : Nat) :
    (handleWith out host.wary now s e i cost).host.2 = e.2.after s (s.handle out now i) := by
  unfold handleWith Usage.after
  simp only
  split_ifs <;> rfl

/-- A session that has to wait asks for the same thing later. -/
theorem suits_pauseWith {α : Type} {u : Usage} (hu : u.Suits s) (r : HostReply (η × Usage) α)
    (hr : r.host.2 = u) (pause : Pause) :
    (s.pauseWith r pause).host.2.Suits (s.pauseWith r pause).supervisor := by
  unfold pauseWith
  split
  · exact hr ▸ hu.abreast (Idles.requestStop s).toAbreast
  · exact hr ▸ hu

theorem suits_take {i : Input} (hs : Sound s) (hu : e.2.Suits s) (hi : s.turn now = .take i) :
    (e.2.after s (s.handle out now i)).Suits (s.handle out now i) := by
  have hcomes : Sound.Comes s now i := hs.comes (admits_of_turn_take hi) false
  have hclosing (deadline : Nat) : s.phase ≠ .closing deadline := by
    intro hp
    simp [turn, hp] at hi
  have hconnected : i ≠ .connected := by
    rintro rfl
    cases admits_of_turn_take hi with
    | connected hp hr => simp [turn, hp, hr] at hi
  refine Usage.suits_handle hs hcomes hconnected ?_ hu.vacant_iff fun _ => ?_
  · intro hmisused
    rw [hmisused] at hu
    exact hu
  · generalize e.2 = u at hu
    cases u with
    | vacant => exact .inl rfl
    | live => exact .inr rfl
    | closing =>
      obtain ⟨_, deadline, hp⟩ := hu
      exact absurd hp (hclosing deadline)
    | ended | closed | misused => exact hu.elim

theorem suits_settle {α : Type} {r : HostReply (η × Usage) α} {input : α → Input}
    (hready : ∀ a, r.answer = .ready a →
      (r.host.2.after (s.stopIf r.stop) ((s.stopIf r.stop).handle out now (input a))).Suits
        ((s.stopIf r.stop).handle out now (input a)))
    (hpause : (∀ a, r.answer ≠ .ready a) → r.host.2.Suits s) :
    (s.settle out host.wary now r input).host.2.Suits
      (s.settle out host.wary now r input).supervisor := by
  unfold settle
  split
  · rename_i a ha
    rw [handleWith_wary]
    exact hready a ha
  · rename_i ha
    exact suits_pauseWith (hpause (by simp [ha])) r rfl _
  · rename_i ha
    exact suits_pauseWith (hpause (by simp [ha])) r rfl _

theorem suits_connect (hs : Sound s) (hu : e.2.Suits s) (hq : s.turn now = .ask .connect) :
    let r := host.wary.connect e now s.url
    (s.settle out host.wary now r Connection.input).host.2.Suits
      (s.settle out host.wary now r Connection.input).supervisor := by
  intro r
  have hp : s.phase = .connecting := by
    cases admits_of_turn_ask hq (.inl rfl) with
    | connected hp => exact hp
  have hvacant : e.2 = .vacant := hu.vacant_iff.mpr (hs.of_connecting hp).2.transport
  have husage : r.host.2 = Usage.vacant.connected r.answer := hvacant ▸ rfl
  apply suits_settle
  · intro a ha
    have hcomes : Sound.Comes (s.stopIf r.stop) now a.input :=
      hs.comes (admits_of_turn_ask hq (connection_answers a)) r.stop
    rw [husage, ha]
    cases a with
    | opened =>
      apply Usage.suits_after_live
      simp [handle, Connection.input, opened, emit, note]
    | failed | crashed =>
      have hnone : (s.stopIf r.stop).transport = none := by
        rw [stopIf_transport]
        exact (hs.of_connecting hp).2.transport
      exact Usage.suits_handle (hs.stopIf _) hcomes (by simp [Connection.input])
        (by simp [Usage.connected]) ⟨fun _ => hnone, fun _ => rfl⟩ fun _ => .inl rfl
  · intro ha
    have hsame : r.host.2 = .vacant := by
      rw [husage]
      cases hanswer : r.answer with
      | ready a => exact absurd hanswer (ha a)
      | later | soon => rfl
    rw [hsame, ← hvacant]
    exact hu

theorem suits_receive (hs : Sound s) (hu : e.2.Suits s) (hq : s.turn now = .ask .frame) :
    let r := host.wary.receive e now
    (s.settle out host.wary now r .received).host.2.Suits
      (s.settle out host.wary now r .received).supervisor := by
  intro r
  have hopen : s.phase = .waiting ∧ s.transport.isSome = true := by
    cases admits_of_turn_ask hq (.inl ⟨.closed, rfl⟩) with
    | received _ hp _ ht => exact ⟨hp, ht⟩
  have hlive : e.2 = .live := hu.live hopen.1 hopen.2
  have husage : r.host.2 = Usage.live.received r.answer := hlive ▸ rfl
  apply suits_settle
  · intro a ha
    have hcomes : Sound.Comes (s.stopIf r.stop) now (.received a) :=
      hs.comes (admits_of_turn_ask hq (.inl ⟨a, rfl⟩)) r.stop
    have hsome : (s.stopIf r.stop).transport ≠ none := by
      rw [stopIf_transport]
      exact Option.isSome_iff_ne_none.mp hopen.2
    rw [husage, ha]
    cases a with
    | frame f =>
      exact Usage.suits_handle (hs.stopIf _) hcomes nofun nofun
        ⟨nofun, fun ht => absurd ht hsome⟩ fun _ => .inr rfl
    | closed | failed =>
      exact Usage.suits_handle (hs.stopIf _) hcomes nofun nofun
        ⟨nofun, fun ht => absurd ht hsome⟩ nofun
  · intro ha
    have hsame : r.host.2 = .live := by
      rw [husage]
      cases hanswer : r.answer with
      | ready a => exact absurd hanswer (ha a)
      | later | soon => rfl
    rw [hsame, ← hlive]
    exact hu

/-- Turn by turn, the watch finds nothing wrong. -/
theorem suits_step (hs : Sound s) (hu : e.2.Suits s) :
    (s.step out host.wary now e).host.2.Suits (s.step out host.wary now e).supervisor := by
  unfold step
  split
  · rename_i i hi
    rw [handleWith_wary]
    exact suits_take hs hu hi
  · rename_i hq
    exact suits_connect hs hu hq
  · rename_i hq
    exact suits_receive hs hu hq
  · rename_i hq
    have hclosed : Admits s now .closed := admits_of_turn_ask hq (.inl rfl)
    obtain ⟨deadline, hp⟩ : ∃ deadline, s.phase = .closing deadline := by
      cases hclosed with
      | closed hp => exact ⟨_, hp⟩
    have ht : s.transport.isSome = true := (hs.of_closing hp).2.2.1
    have hend {u : Usage} (stop : Bool) (hu : u = .closing ∨ u = .closed) :
        (u.after (s.stopIf stop) ((s.stopIf stop).handle out now .closed)).Suits
          ((s.stopIf stop).handle out now .closed) := by
      refine Usage.suits_handle (hs.stopIf stop) (hs.comes hclosed stop) nofun ?_ ?_ nofun
      · rcases hu with rfl | rfl <;> nofun
      · rw [stopIf_transport]
        rcases hu with rfl | rfl <;> simpa using Option.isSome_iff_ne_none.mp ht
    generalize hr : host.wary.close e now = r
    have husage : r.host.2 = e.2.closes r.answer := by
      subst hr
      rfl
    obtain ⟨hready, hwaits⟩ := hu.closes ht
    simp only
    split
    · rename_i hanswer
      rw [handleWith_wary, husage, hanswer]
      exact hend _ (.inr hready)
    · rename_i hanswer
      have hclosing : r.host.2 = .closing := husage.trans (hwaits _ fun _ ha => hanswer ha)
      split
      · rw [handleWith_wary]
        exact hend false (.inl hclosing)
      · refine suits_pauseWith ?_ r rfl _
        rw [hclosing]
        exact ⟨ht, deadline, hp⟩
  · exact hu
  · exact hu

end Supervisor

theorem Attended.suits {out : Surface σ} {host : Host η} {m : Moment σ} {e : η × Usage}
    (h : Attended out host m e) : e.2.Suits m.supervisor := by
  induction h with
  | spawn => rfl
  | pass _ _ ih => exact ih
  | stop _ ih => exact ih.abreast (Idles.requestStop _).toAbreast
  | notify _ n ih => exact ih.abreast (Idles.notify _ n).toAbreast
  | touch _ x ih => exact ih.abreast (Idles.touch _ x).toAbreast
  | act _ _ ih => exact ih
  | turn hm ih => exact suits_step hm.reachable.sound ih

/-! ## The discipline -/

/-- The transports of a session, as its journal tells, from the attempt to the drop. -/
structure Journal.TransportsKept (j : Journal) (ended : Bool) : Prop where
  /-- At no time there are two of them. -/
  unique : ∀ (later earlier : Journal) n n', j = later ++ earlier → earlier.Undropped n →
    earlier.Undropped n' → n = n'
  /-- None is left when another one is asked for, and when it opens. -/
  connecting : ∀ (later earlier : Journal) n now, j = later ++ .connecting n now :: earlier →
    earlier.Detached
  opened : ∀ (later earlier : Journal) n, j = later ++ .opened n :: earlier →
    earlier.Detached ∧ Entry.opened n ∉ earlier
  /-- What is dropped was opened, and is dropped once. -/
  dropped : ∀ (later earlier : Journal) n, j = later ++ .transportDropped n :: earlier →
    earlier.Undropped n
  /-- A transport is closed while it is there, and once. -/
  closed : ∀ (later earlier : Journal) n, j = later ++ .closing n :: earlier →
    earlier.Undropped n ∧ Entry.closing n ∉ earlier
  all : ended = true → ∀ n, Entry.opened n ∈ j → Entry.transportDropped n ∈ j

/-- How a session deals with its transports. -/
structure Moment.TransportsKept (out : Surface σ) (m : Moment σ) : Prop where
  journal : m.journal.TransportsKept m.supervisor.isOver
  /-- Frames are asked of a transport that is there and was not closed. -/
  asked : m.supervisor.turn m.now = .ask .frame → ∃ n, m.supervisor.transport = some n ∧
    m.journal.Undropped n ∧ Entry.closing n ∉ m.journal
  /-- With its last answer a transport is dropped. -/
  ended : ∀ i stop n, Admits m.supervisor m.now i → i.ends = true → m.journal.Undropped n →
    Entry.transportDropped n ∈ (m.handle out i stop).journal
  /-- Close is called for a stop that was asked for before. -/
  stopped : ∀ n, Entry.closing n ∈ m.journal → m.supervisor.stopRequested = true
  closes : ∀ m' n, Step out m m' → Entry.closing n ∈ m'.journal →
    Entry.closing n ∈ m.journal ∨ m.supervisor.stopRequested = true

theorem Custody.Told.transportsKept {j : Journal} {n : Nat} {c : Custody}
    (h : Told n c j.transports) {ended : Bool} (hover : ended = true → j.Detached) :
    j.TransportsKept ended := by
  have hunder (later earlier : Journal) (hj : j = later ++ earlier) :
      ∃ n' c', Told n' c' earlier.transports := by
    rw [hj, Journal.transports_append] at h
    exact h.suffix
  have hentry (later earlier : Journal) (e : Entry) (he : e.onTransports = true)
      (hj : j = later ++ e :: earlier) : ∃ n' c', Told n' c' (e :: earlier.transports) := by
    rw [Journal.transports_eq_of_split he hj] at h
    exact h.suffix
  have hdetached {earlier : Journal} (hd : earlier.transports.Detached) : earlier.Detached :=
    fun n hn => hd n ((Journal.undropped_transports_iff _ _).mpr hn)
  refine ⟨?_, ?_, ?_, ?_, ?_, ?_⟩
  · intro later earlier n₁ n₂ hj h₁ h₂
    obtain ⟨n', c', htold⟩ := hunder later earlier hj
    rw [← Journal.undropped_transports_iff, htold.undropped_iff] at h₁ h₂
    exact h₁.2.trans h₂.2.symm
  · intro later earlier n now hj
    obtain ⟨n', c', htold⟩ := hentry later earlier _ rfl hj
    cases htold with
    | connecting htold hc => exact hdetached (htold.detached hc)
  · intro later earlier n hj
    obtain ⟨n', c', htold⟩ := hentry later earlier _ rfl hj
    cases htold with
    | opened htold =>
      refine ⟨hdetached (htold.detached rfl), ?_⟩
      rw [← Journal.mem_transports_iff rfl]
      exact htold.not_mem_of_attempting rfl
  · intro later earlier n hj
    obtain ⟨n', c', htold⟩ := hentry later earlier _ rfl hj
    cases htold with
    | dropped htold hc =>
      rw [← Journal.undropped_transports_iff, htold.undropped_iff]
      exact ⟨hc, rfl⟩
  · intro later earlier n hj
    obtain ⟨n', c', htold⟩ := hentry later earlier _ rfl hj
    cases htold with
    | closing htold =>
      rw [← Journal.undropped_transports_iff, htold.undropped_iff, ← Journal.mem_transports_iff rfl]
      exact ⟨⟨rfl, rfl⟩, htold.not_closing_of_held⟩
  · intro hover' n hn
    by_contra hnot
    exact hover hover' n ⟨hn, hnot⟩

/-- Whatever its connector and its transports answer, a session has one transport at a time, drops
it before it goes on, and leaves none behind; it never calls one that was done. -/
theorem transports_kept (out : Surface σ) :
    (∀ m : Moment σ, Reachable out m → m.TransportsKept out) ∧
      ∀ (η : Type) (host : Host η) (m : Moment σ) (e : η × Usage), Attended out host m e →
        e.2 ≠ .misused ∧ (m.supervisor.step out host.wary m.now e).Shadows
          (m.supervisor.step out host m.now e.1) := by
  refine ⟨fun m h => ?_, fun η host m e h => ⟨fun hmisused => ?_, shadows_step m.supervisor e⟩⟩
  · obtain ⟨c, hkeeps⟩ := h.keepsTransport
    refine ⟨hkeeps.told.transportsKept h.detached_of_over, ?_, ?_, fun n => h.stopped_of_closing,
      fun m' n step => step.closing_of_mem h⟩
    · intro hask
      obtain ⟨hp, ht⟩ : m.supervisor.phase = .waiting ∧ m.supervisor.transport.isSome = true := by
        cases admits_of_turn_ask hask (.inl ⟨.closed, rfl⟩) with
        | received _ hp _ ht => exact ⟨hp, ht⟩
      obtain ⟨n, ht⟩ := Option.isSome_iff_exists.mp ht
      refine ⟨n, ht, hkeeps.undropped_iff.mpr ht, ?_⟩
      obtain rfl := hkeeps.held hp ht
      obtain rfl := hkeeps.transport_eq ht
      rw [← Journal.mem_transports_iff rfl]
      exact hkeeps.told.not_closing_of_held
    · intro i stop n hi he hn
      have hstep : Step out m (m.handle out i stop) := .handle stop hi
      obtain ⟨c', hkeeps'⟩ := (h.step hstep).keepsTransport
      have hgone : (m.handle out i stop).supervisor.transport = none := by
        rcases handle_transport out (h.sound.stopIf stop) (h.sound.comes hi stop) with
          ht | ⟨hnot, _⟩ | ⟨rfl, _⟩
        · exact ht
        · simp [he] at hnot
        · cases he
      by_contra hnot
      have hleft : (m.handle out i stop).journal.Undropped n :=
        ⟨hstep.mem_transports h rfl hn.1, hnot⟩
      cases hgone.symm.trans (hkeeps'.undropped_iff.mp hleft)
  · have hsuits := h.suits
    rw [hmisused] at hsuits
    exact hsuits

/-- A transport that ends on its own, and the one after it, which is closed for a stop. -/
theorem transports_kept_of_reconnect :
    let out := Rehearsal.Stage.surface
    let lost := Moment.scripted out (.create false) [.closed] 3
    let later := 3000000000
    let m : Moment Rehearsal.Stage :=
      ⟨later, (lost.supervisor.run out .script later 16 []).supervisor⟩
    let begun := (Supervisor.spawn "ws://camera" {} (.create false) false).step out Host.script.wary
      0 ([.closed], .vacant)
    let opened := begun.supervisor.step out Host.script.wary 0 begun.host
    m.journal.select Entry.transport? = [1, 1, 2, 2, 2] ∧ m.supervisor.isOver = true ∧
      m.TransportsKept out ∧ opened.host.2 = .live ∧ opened.host.2 ≠ .misused := by
  intro out lost later m begun opened
  have hlost : Reachable out lost := Moment.reachable_scripted _ _ _ _
  have hlater : Reachable out ⟨later, lost.supervisor⟩ := hlost.step (.pass (Nat.zero_le _))
  have hm : Reachable out m := hlater.run (Supervisor.run_run 16 lost.supervisor [])
  have hspawn : Attended out Host.script ⟨0, .spawn "ws://camera" {} (.create false) false⟩
      ([.closed], .vacant) := .spawn _ _ _ _ _ _
  exact ⟨by decide +kernel, by decide +kernel, (transports_kept out).1 m hm, by decide +kernel,
    ((transports_kept out).2 _ .script _ _ hspawn.turn.turn).1⟩

end LivePlayback
