import LivePlayback.Proofs.Exchange.Delivery

/-!
# The end of a line

A clean end is final: whatever the two ends of the line do afterwards, nothing more comes out of it.
A failure is an item like a frame and leaves no mark on the line, so what the host sends behind it
is still given to a player who asks once more. Nothing else is.
-/

namespace LivePlayback
set_option autoImplicit false

open Rehearsal

theorem FeedItem.reception_ne_closed (item : FeedItem) : item.reception ≠ .closed := by
  cases item <;> exact Reception.noConfusion

theorem FeedItem.reception_injective : Function.Injective FeedItem.reception := by
  intro item item' h
  have hitem := congrArg Reception.item? h
  rw [item?_reception, item?_reception] at hitem
  exact Option.some.inj hitem

theorem FeedItem.reception_eq_failed {item : FeedItem} {why : Fault}
    (h : item.reception = .failed why) :
    ∃ reason, why = .transport reason ∧ item = .fail reason := by
  cases item with
  | frame f => cases h
  | fail reason =>
    cases h
    exact ⟨reason, rfl, rfl⟩

namespace Traffic

variable {t t' : Traffic} {i : Nat}

/-- What the player is given if it asks a line now; none while nothing comes. -/
def answer? (t : Traffic) (i : Nat) : Option Reception :=
  match (stepExchange t.exchange (.next i)).1 with
  | .reception r => r
  | _ => none

/-- Nothing can come out of the line any more. -/
def Ended (t : Traffic) (i : Nat) : Prop :=
  .closed ∈ t.log i ∨ (t.log i).FeedGone t.deaf ∧ (t.log i).sent = (t.log i).received

/-! ## What the log says of the next answer -/

/-- What the answer depends on. -/
inductive Answers (t : Traffic) (i : Nat) : Option Reception → Prop where
  | absent (ht : ¬ t.HasTransport i) : Answers t i none
  | closed (ht : t.HasTransport i) (he : t.Ended i) : Answers t i (some .closed)
  | item {item : FeedItem} {rest : List FeedItem} (ht : t.HasTransport i) (hc : .closed ∉ t.log i)
      (hs : (t.log i).sent = (t.log i).received ++ item :: rest) :
      Answers t i (some item.reception)
  | pending (ht : t.HasTransport i) (hc : .closed ∉ t.log i)
      (hs : (t.log i).sent = (t.log i).received) (hf : ¬ (t.log i).FeedGone t.deaf) :
      Answers t i none

namespace Sound

theorem prefix_received (h : t.Sound) (i : Nat) : (t.log i).received <+: (t.log i).sent := by
  by_cases hlt : i < t.exchange.lines.length
  · exact (h.lines i _ (List.getElem?_eq_getElem hlt)).carries.received
  · rw [h.unopened i (Nat.le_of_not_lt hlt)]
    exact List.prefix_refl _

theorem transport?_eq_none (h : t.Sound) (ht : ¬ t.HasTransport i) :
    t.exchange.transport? i = none := by
  cases hl : t.exchange.transport? i with
  | none => rfl
  | some l =>
    obtain ⟨hget, held⟩ := Option.filter_eq_some_iff.mp hl
    refine absurd ⟨?_, fun hd => ?_⟩ ht
    · rw [h.length_connects]
      exact (List.getElem?_eq_some_iff.mp hget).1
    · rw [(h.lines i l hget).dropped.mpr hd] at held
      cases held

theorem answers (h : t.Sound) (i : Nat) : t.Answers i (t.answer? i) := by
  by_cases ht : t.HasTransport i
  · obtain ⟨l, hl, hfollows, _, held⟩ := h.exists_transport ht
    have hanswer : t.answer? i = l.receive.1 := by
      simp only [answer?, stepExchange, hl]
    rw [hanswer]
    by_cases hc : .closed ∈ t.log i
    · rw [hfollows.receive_closed hc]
      exact .closed ht (.inl hc)
    · obtain ⟨items, hitems⟩ := hfollows.carries.received
      cases items with
      | nil =>
        have hs : (t.log i).sent = (t.log i).received := by rw [← hitems, List.append_nil]
        rw [hfollows.receive_rest held hc hs]
        cases hsender : l.channel.senderHeld with
        | true =>
          refine .pending ht hc hs fun hgone => ?_
          rw [hfollows.feedGone.mpr hgone] at hsender
          cases hsender
        | false => exact .closed ht (.inr ⟨hfollows.feedGone.mp hsender, hs⟩)
      | cons item rest =>
        rw [hfollows.receive_item held hc hitems.symm]
        exact .item ht hc hitems.symm
  · have hanswer : t.answer? i = none := by
      simp only [answer?, stepExchange, h.transport?_eq_none ht]
    rw [hanswer]
    exact .absent ht

theorem answer?_eq_item_iff (h : t.Sound) (item : FeedItem) :
    t.answer? i = some item.reception ↔ t.HasTransport i ∧ .closed ∉ t.log i ∧
      ∃ rest, (t.log i).sent = (t.log i).received ++ item :: rest := by
  have hanswers := h.answers i
  generalize t.answer? i = r at hanswers
  constructor
  · intro hr
    cases hanswers with
    | absent | pending => cases hr
    | closed => exact absurd (Option.some.inj hr).symm item.reception_ne_closed
    | item ht hc hs =>
      obtain rfl := FeedItem.reception_injective (Option.some.inj hr)
      exact ⟨ht, hc, _, hs⟩
  · rintro ⟨ht, hc, rest, hs⟩
    cases hanswers with
    | absent ht' => exact absurd ht ht'
    | closed _ he =>
      obtain hclosed | ⟨_, hall⟩ := he
      · exact absurd hclosed hc
      · simp [hs] at hall
    | item _ _ hs' =>
      rw [hs] at hs'
      cases List.append_cancel_left hs'
      rfl
    | pending _ _ hall => simp [hs] at hall

theorem ended_of_closed (h : t.Sound) (hr : t.answer? i = some .closed) :
    t.HasTransport i ∧ t.Ended i := by
  have hanswers := h.answers i
  generalize hgiven : t.answer? i = given at hanswers
  rw [hr] at hgiven
  cases hanswers with
  | absent | pending => cases hgiven
  | closed ht he => exact ⟨ht, he⟩
  | @item item => exact absurd (Option.some.inj hgiven).symm item.reception_ne_closed

/-- Only the host fails a line. -/
theorem sent_of_failed (h : t.Sound) {why : Fault} (hr : t.answer? i = some (.failed why)) :
    ∃ reason, why = .transport reason := by
  have hanswers := h.answers i
  generalize hgiven : t.answer? i = given at hanswers
  rw [hr] at hgiven
  cases hanswers with
  | absent | closed | pending => cases hgiven
  | item =>
    obtain ⟨reason, hwhy, _⟩ := FeedItem.reception_eq_failed (Option.some.inj hgiven).symm
    exact ⟨reason, hwhy⟩

/-- A line that has ended says so to whoever still has it. -/
theorem answer?_of_ended (h : t.Sound) (hi : i < t.connects.length) (he : t.Ended i) :
    t.answer? i = some .closed ∨ .dropped ∈ t.log i ∧ t.answer? i = none := by
  have hanswers := h.answers i
  generalize t.answer? i = r at hanswers ⊢
  cases hanswers with
  | absent ht => exact .inr ⟨Classical.byContradiction fun hd => ht ⟨hi, hd⟩, rfl⟩
  | closed => exact .inl rfl
  | item _ hc hs =>
    obtain hclosed | ⟨_, hall⟩ := he
    · exact absurd hclosed hc
    · simp [hs] at hall
  | pending _ hc _ hf =>
    obtain hclosed | ⟨hgone, _⟩ := he
    · exact absurd hclosed hc
    · exact absurd hgone hf

end Sound

/-! ## What stays as it is -/

namespace Takes

theorem log_grows (ht : t.Takes t') (i : Nat) : t.log i <+: t'.log i := by
  cases ht with
  | idle => simp only [push_rest, List.prefix_refl]
  | line | accept | connect | deafen | refuse | dropConnector =>
    rw [log_push]
    exact List.prefix_append _ _

theorem connects_grows (ht : t.Takes t') : t.connects <+: t'.connects := by
  cases ht with
  | idle => simp only [push_rest, List.prefix_refl]
  | line | accept | connect | deafen | refuse | dropConnector =>
    rw [connects_push]
    exact List.prefix_append _ _

theorem feedGone (ht : t.Takes t') (hf : (t.log i).FeedGone t.deaf) :
    (t'.log i).FeedGone t'.deaf := by
  refine hf.imp (fun hm => (ht.log_grows i).subset hm) fun ⟨haccepted, hdeaf⟩ => ?_
  cases ht with
  | idle =>
    rw [push_rest]
    exact ⟨haccepted, hdeaf⟩
  | accept _ hlisten | connect _ hlisten =>
    rw [hlisten] at hdeaf
    cases hdeaf
  | deafen | refuse | dropConnector =>
    rw [log_push, deaf_push]
    exact ⟨by simpa [Tiding.logged?] using haccepted, by simp [hdeaf]⟩
  | @line j _ _ entry _ hm =>
    have hentry : entry ≠ .accepted := by cases hm <;> exact LineEntry.noConfusion
    rw [log_push, deaf_push]
    refine ⟨?_, by simp [hdeaf]⟩
    simp only [Tiding.logged?]
    split
    · rwa [Option.toList_some, LineLog.mem_push_iff hentry.symm]
    · simpa using haccepted

/-- Without a feed nothing is sent. -/
theorem sent_of_feedGone (ht : t.Takes t') (h : t.Sound) (hf : (t.log i).FeedGone t.deaf) :
    (t'.log i).sent = (t.log i).sent := by
  cases ht with
  | idle => rw [push_rest]
  | connect | deafen | refuse | dropConnector =>
    rw [log_push]
    exact congrArg LineLog.sent (List.append_nil _)
  | accept =>
    rw [log_push]
    simp only [Tiding.logged?]
    split <;> simp [LineLog.sent, LineEntry.sent?]
  | @line j l _ entry hl hm =>
    rw [log_push]
    simp only [Tiding.logged?]
    split
    · rename_i hj
      subst hj
      rw [Option.toList_some, LineLog.sent_push]
      cases hm with
      | send item held =>
        rw [(h.lines j l hl).feedGone.mpr hf] at held
        cases held
      | take | close | drop | dropFeed => simp [LineEntry.sent?]
    · simp

theorem ended (ht : t.Takes t') (h : t.Sound) (he : t.Ended i) : t'.Ended i := by
  refine he.imp (fun hc => (ht.log_grows i).subset hc) fun ⟨hgone, hs⟩ => ?_
  refine ⟨ht.feedGone hgone, ?_⟩
  have hsent := ht.sent_of_feedGone h hgone
  have hgrown : (t.log i).received <+: (t'.log i).received := (ht.log_grows i).filterMap _
  refine (List.IsPrefix.eq_of_length_le ?_ ?_).symm
  · exact (ht.sound h).prefix_received i
  · rw [hsent, hs]
    exact hgrown.length_le

end Takes

namespace Sound

theorem log_grows (h : t.Sound) (later : List ExchangeStep) (i : Nat) :
    t.log i <+: (later.foldl take t).log i := by
  induction later generalizing t with
  | nil => exact List.prefix_refl _
  | cons s later ih =>
    have htakes := Takes.of_step h s
    exact (htakes.log_grows i).trans (ih (htakes.sound h))

/-- Once it has come to its end, a line stays there, and gives nothing else. -/
theorem closed_foldl (h : t.Sound) (hi : i < t.connects.length) (he : t.Ended i)
    (later : List ExchangeStep) :
    (later.foldl take t).answer? i = some .closed ∨
      .dropped ∈ (later.foldl take t).log i ∧ (later.foldl take t).answer? i = none := by
  induction later generalizing t with
  | nil => exact h.answer?_of_ended hi he
  | cons s later ih =>
    have htakes := Takes.of_step h s
    exact ih (htakes.sound h) (Nat.lt_of_lt_of_le hi htakes.connects_grows.length_le)
      (htakes.ended h he)

/-- Taking an item is an entry of its own. -/
theorem received_next (h : t.Sound) (item : FeedItem)
    (hr : t.answer? i = some item.reception) :
    ((t.take (.next i)).log i).received = (t.log i).received ++ [item] := by
  obtain ⟨ht, _, _, _⟩ := (h.answer?_eq_item_iff item).mp hr
  obtain ⟨l, hl, _⟩ := h.exists_transport ht
  have hreceive : l.receive.1 = some item.reception := by
    simpa only [answer?, stepExchange, hl] using hr
  simp only [take, stepExchange, hl, hreceive, Tiding.of?, item.item?_reception, Option.map_some]
  rw [log_push]
  simp [Tiding.logged?, LineLog.received_push, LineEntry.received?]

end Sound

/-! ## How a line ends -/

/-- How a line goes on after the items that were given already. -/
structure Trails (t : Traffic) (i : Nat) (given : List FeedItem) : Prop where
  /-- What comes was sent behind them, and what was sent behind them comes in order. -/
  frame : ∀ f, t.answer? i = some (.frame f) ↔ t.HasTransport i ∧ .closed ∉ t.log i ∧
    ∃ behind rest, (t.log i).received = given ++ behind ∧
      (t.log i).sent = given ++ (behind ++ .frame f :: rest)
  /-- As long as nothing is sent behind them, nothing comes. -/
  last : (t.log i).sent = given → t.answer? i = none ∨ t.answer? i = some .closed

theorem Sound.trails (h : t.Sound) {given : List FeedItem}
    (hgiven : given <+: (t.log i).received) : t.Trails i given := by
  obtain ⟨behind, hreceived⟩ := hgiven
  refine ⟨fun f => ?_, fun hs => ?_⟩
  · refine (h.answer?_eq_item_iff (.frame f)).trans
      (and_congr_right fun _ => and_congr_right fun _ => ?_)
    constructor
    · rintro ⟨rest, hs⟩
      refine ⟨behind, rest, hreceived.symm, ?_⟩
      rw [hs, ← hreceived, List.append_assoc]
    · rintro ⟨behind', rest, hreceived', hs⟩
      refine ⟨rest, ?_⟩
      rw [hs, hreceived', List.append_assoc]
  · have hanswers := h.answers i
    generalize t.answer? i = r at hanswers ⊢
    cases hanswers with
    | absent | pending => exact .inl rfl
    | closed => exact .inr rfl
    | item _ _ hmore =>
      rw [hs, ← hreceived] at hmore
      simp at hmore

/-- How a line goes on once it was answered with an end. -/
structure Finishes (t : Traffic) (i : Nat) : Prop where
  /-- A clean end is the last there is. -/
  closed : t.answer? i = some .closed → ∀ later : List ExchangeStep,
    (later.foldl take t).answer? i = some .closed ∨
      .dropped ∈ (later.foldl take t).log i ∧ (later.foldl take t).answer? i = none
  /-- A failure is, unless the host sends on. -/
  failed : ∀ why, t.answer? i = some (.failed why) → ∃ reason, why = .transport reason ∧
    ∀ later : List ExchangeStep, (later.foldl take (t.take (.next i))).Trails i
      ((t.log i).received ++ [.fail reason])

/-- Whatever is done with a line, a clean end is final, and a failure is but for what the host sends
behind it. -/
theorem lines_finish (steps : List ExchangeStep) (i : Nat) : (run steps).Finishes i := by
  have h : (run steps).Sound := Sound.create.foldl steps
  generalize run steps = t at h
  refine ⟨fun hr later => ?_, fun why hr => ?_⟩
  · obtain ⟨ht, he⟩ := h.ended_of_closed hr
    exact h.closed_foldl ht.1 he later
  · obtain ⟨reason, rfl⟩ := h.sent_of_failed hr
    refine ⟨reason, rfl, fun later => ?_⟩
    have hnext : (t.take (.next i)).Sound := (Takes.of_next t i).sound h
    apply (hnext.foldl later).trails
    rw [← h.received_next (.fail reason) hr]
    exact (hnext.log_grows later i).filterMap _

/-- What is sent behind a failure comes out of the line after all. -/
example :
    let t := run [.connect "ws://x", .accept, .send 0 (.fail "reset")]
    t.answer? 0 = some (.failed (.transport "reset")) ∧
      ([.send 0 (.frame ⟨#[1]⟩)].foldl take (t.take (.next 0))).answer? 0 =
        some (.frame ⟨#[1]⟩) := by
  constructor <;> rfl

end Traffic

end LivePlayback
