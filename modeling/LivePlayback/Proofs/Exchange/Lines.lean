import LivePlayback.Exchange

/-!
# Lines and their logs

A log tells what happened on a line: what was sent and received, and which end was given up when. A
line that follows its log has nothing to add to it.
-/

namespace LivePlayback
set_option autoImplicit false

inductive LineEntry where
  | accepted
  | sent (item : FeedItem)
  | received (item : FeedItem)
  | closed
  | dropped
  | feedDropped

namespace LineEntry

def sent? : LineEntry → Option FeedItem
  | .sent item => some item
  | _ => none

def received? : LineEntry → Option FeedItem
  | .received item => some item
  | _ => none

end LineEntry

/-- What happened on a line, oldest entry first. -/
abbrev LineLog := List LineEntry

namespace LineLog

def sent (log : LineLog) : List FeedItem := log.filterMap LineEntry.sent?

def received (log : LineLog) : List FeedItem := log.filterMap LineEntry.received?

theorem sent_push (log : LineLog) (e : LineEntry) :
    sent (log ++ [e]) = log.sent ++ e.sent?.toList := by
  cases h : e.sent? <;> simp [sent, h]

theorem received_push (log : LineLog) (e : LineEntry) :
    received (log ++ [e]) = log.received ++ e.received?.toList := by
  cases h : e.received? <;> simp [received, h]

/-- The host has let go of the feed, or has stopped listening before it got it. -/
def FeedGone (log : LineLog) (deaf : Bool) : Prop :=
  .feedDropped ∈ log ∨ .accepted ∉ log ∧ deaf = true

variable {log : LineLog} {e e' : LineEntry} {deaf : Bool}

theorem mem_push_iff (h : e' ≠ e) : e' ∈ log ++ [e] ↔ e' ∈ log := by
  rw [List.mem_append, List.mem_singleton]
  exact or_iff_left h

theorem mem_push_self (log : LineLog) (e : LineEntry) : e ∈ log ++ [e] :=
  List.mem_append_right log (List.mem_singleton_self e)

theorem feedGone_push_iff (h : .feedDropped ≠ e) (h' : .accepted ≠ e) :
    FeedGone (log ++ [e]) deaf ↔ log.FeedGone deaf := by
  unfold FeedGone
  rw [mem_push_iff h, mem_push_iff h']

end LineLog

/-- As long as the receiver is there, what was received and what waits is what was sent. -/
structure Channel.Carries (c : Channel FeedItem) (log : LineLog) : Prop where
  conserved : c.receiverHeld = true → log.received ++ c.items = log.sent
  received : log.received <+: log.sent
  lost : c.receiverHeld = false → c.items = []

namespace Channel.Carries

variable {c : Channel FeedItem} {log : LineLog} {item : FeedItem} {rest : List FeedItem}

theorem create : (Channel.create : Channel FeedItem).Carries [] :=
  ⟨fun _ => rfl, List.prefix_refl _, fun _ => rfl⟩

/-- An entry that is about no item. -/
theorem note (h : c.Carries log) {e : LineEntry} (hs : e.sent? = none) (hr : e.received? = none) :
    c.Carries (log ++ [e]) := by
  have hsent : LineLog.sent (log ++ [e]) = log.sent := by simp [LineLog.sent_push, hs]
  have hreceived : LineLog.received (log ++ [e]) = log.received := by
    simp [LineLog.received_push, hr]
  refine ⟨fun held => ?_, ?_, h.lost⟩
  · rw [hsent, hreceived]
    exact h.conserved held
  · rw [hsent, hreceived]
    exact h.received

theorem send (h : c.Carries log) (held : c.receiverHeld = true) (item : FeedItem) :
    { c with items := c.items ++ [item] }.Carries (log ++ [LineEntry.sent item]) := by
  have hsent : LineLog.sent (log ++ [.sent item]) = log.sent ++ [item] := LineLog.sent_push _ _
  have hreceived : LineLog.received (log ++ [.sent item]) = log.received := by
    simp [LineLog.received_push, LineEntry.received?]
  refine ⟨fun _ => ?_, ?_, fun hdropped => absurd (hdropped.symm.trans held) nofun⟩
  · rw [hsent, hreceived, ← h.conserved held, List.append_assoc]
  · rw [hsent, hreceived]
    exact h.received.trans (List.prefix_append _ _)

theorem take (h : c.Carries log) (held : c.receiverHeld = true) (hi : c.items = item :: rest) :
    { c with items := rest }.Carries (log ++ [LineEntry.received item]) := by
  have hsent : LineLog.sent (log ++ [.received item]) = log.sent := by
    simp [LineLog.sent_push, LineEntry.sent?]
  have hreceived : LineLog.received (log ++ [.received item]) = log.received ++ [item] :=
    LineLog.received_push _ _
  have hconserved : log.received ++ [item] ++ rest = log.sent := by
    rw [List.append_assoc, List.singleton_append, ← hi]
    exact h.conserved held
  refine ⟨fun _ => ?_, ?_, fun hdropped => absurd (hdropped.symm.trans held) nofun⟩
  · rw [hsent, hreceived, hconserved]
  · rw [hsent, hreceived]
    exact ⟨rest, hconserved⟩

theorem close (h : c.Carries log) : c.close.Carries log := ⟨h.conserved, h.received, h.lost⟩

theorem dropSender (h : c.Carries log) : c.dropSender.Carries log :=
  ⟨h.conserved, h.received, h.lost⟩

theorem dropReceiver (h : c.Carries log) : c.dropReceiver.Carries log :=
  ⟨nofun, h.received, fun _ => rfl⟩

end Channel.Carries

/-- The log of a line says how it stands. -/
structure Line.Follows (l : Line) (log : LineLog) (deaf : Bool) : Prop where
  carries : l.channel.Carries log
  accepted : l.accepted = true ↔ .accepted ∈ log
  cancelled : l.cancelled = true ↔ .closed ∈ log
  /-- The two records of a close agree. -/
  closed : l.channel.closed = l.cancelled
  dropped : l.channel.receiverHeld = false ↔ .dropped ∈ log
  feedGone : l.channel.senderHeld = false ↔ log.FeedGone deaf

namespace Line.Follows

open LineLog

variable {l : Line} {log : LineLog} {deaf : Bool} {item : FeedItem} {rest : List FeedItem}

theorem create (url : String) : (Line.create url).Follows [] false :=
  ⟨.create, by simp [Line.create], by simp [Line.create], rfl,
    by simp [Line.create, Channel.create], by simp [Line.create, Channel.create, LineLog.FeedGone]⟩

theorem isClosed_eq (h : l.Follows log deaf) : l.isClosed = l.channel.isClosed := by
  simp [Line.isClosed, Channel.isClosed, h.closed]

theorem isClosed_iff (h : l.Follows log deaf) :
    l.isClosed = true ↔ .closed ∈ log ∨ .dropped ∈ log := by
  rw [← h.cancelled, ← h.dropped]
  simp [Line.isClosed, Channel.isClosed, h.closed]

theorem send_fst (h : l.Follows log deaf) (item : FeedItem) :
    (l.send item).1 = !l.isClosed := by
  rw [h.isClosed_eq, Line.send, Channel.send]
  cases hc : l.channel.isClosed <;> simp

theorem send_of_isClosed (h : l.Follows log deaf) (hc : l.isClosed = true) (item : FeedItem) :
    (l.send item).2 = l := by
  rw [h.isClosed_eq] at hc
  rw [Line.send, Channel.send, if_pos hc]

theorem send (h : l.Follows log deaf) (held : l.channel.receiverHeld = true) (item : FeedItem) :
    { l with channel := { l.channel with items := l.channel.items ++ [item] } }.Follows
      (log ++ [LineEntry.sent item]) deaf :=
  ⟨h.carries.send held item, h.accepted.trans (mem_push_iff (by nofun)).symm,
    h.cancelled.trans (mem_push_iff (by nofun)).symm, h.closed,
    h.dropped.trans (mem_push_iff (by nofun)).symm,
    h.feedGone.trans (feedGone_push_iff (by nofun) (by nofun)).symm⟩

theorem take (h : l.Follows log deaf) (held : l.channel.receiverHeld = true)
    (hi : l.channel.items = item :: rest) :
    { l with channel := { l.channel with items := rest } }.Follows
      (log ++ [LineEntry.received item]) deaf :=
  ⟨h.carries.take held hi, h.accepted.trans (mem_push_iff (by nofun)).symm,
    h.cancelled.trans (mem_push_iff (by nofun)).symm, h.closed,
    h.dropped.trans (mem_push_iff (by nofun)).symm,
    h.feedGone.trans (feedGone_push_iff (by nofun) (by nofun)).symm⟩

theorem close (h : l.Follows log deaf) : l.close.Follows (log ++ [.closed]) deaf := by
  have hcarries : l.channel.Carries (log ++ [.closed]) := h.carries.note rfl rfl
  have haccepted := h.accepted.trans (mem_push_iff (e := .closed) (by nofun)).symm
  have hdropped := h.dropped.trans (mem_push_iff (e := .closed) (by nofun)).symm
  have hfeed := h.feedGone.trans (feedGone_push_iff (e := .closed) (by nofun) (by nofun)).symm
  have hclosed : LineEntry.closed ∈ log ++ [.closed] := mem_push_self log _
  unfold Line.close
  split
  · rename_i hc
    exact ⟨hcarries, haccepted, iff_of_true hc hclosed, h.closed, hdropped, hfeed⟩
  · exact ⟨hcarries.close, haccepted, iff_of_true rfl hclosed, rfl, hdropped, hfeed⟩

theorem drop (h : l.Follows log deaf) : l.drop.Follows (log ++ [.dropped]) deaf :=
  ⟨(h.carries.note rfl rfl).dropReceiver, h.accepted.trans (mem_push_iff (by nofun)).symm,
    h.cancelled.trans (mem_push_iff (by nofun)).symm, h.closed,
    iff_of_true rfl (mem_push_self log _),
    h.feedGone.trans (feedGone_push_iff (by nofun) (by nofun)).symm⟩

theorem dropFeed (h : l.Follows log deaf) : l.dropFeed.Follows (log ++ [.feedDropped]) deaf :=
  ⟨(h.carries.note rfl rfl).dropSender, h.accepted.trans (mem_push_iff (by nofun)).symm,
    h.cancelled.trans (mem_push_iff (by nofun)).symm, h.closed,
    h.dropped.trans (mem_push_iff (by nofun)).symm,
    iff_of_true rfl (.inl (mem_push_self log _))⟩

theorem accept (h : l.Follows log false) :
    { l with accepted := true }.Follows (log ++ [LineEntry.accepted]) false := by
  refine ⟨h.carries.note rfl rfl, iff_of_true rfl (mem_push_self log _),
    h.cancelled.trans (mem_push_iff (by nofun)).symm, h.closed,
    h.dropped.trans (mem_push_iff (by nofun)).symm, h.feedGone.trans ?_⟩
  simp [LineLog.FeedGone]

/-- A feed that was not accepted in time is let go. -/
theorem deafen (h : l.Follows log deaf) :
    (if l.accepted then l else l.dropFeed).Follows log true := by
  split
  · rename_i ha
    have haccepted : .accepted ∈ log := h.accepted.mp ha
    exact ⟨h.carries, h.accepted, h.cancelled, h.closed, h.dropped,
      by simpa [LineLog.FeedGone, haccepted] using h.feedGone⟩
  · rename_i ha
    have haccepted : .accepted ∉ log := fun hm => ha (h.accepted.mpr hm)
    exact ⟨h.carries.dropSender, h.accepted, h.cancelled, h.closed, h.dropped,
      by simp [Line.dropFeed, Channel.dropSender, LineLog.FeedGone, haccepted]⟩

/-- Dropping an end for the second time changes nothing. -/
theorem drop_eq (h : l.Follows log deaf) (hr : l.channel.receiverHeld = false) : l.drop = l := by
  have hlost := h.carries.lost hr
  unfold Line.drop Channel.dropReceiver
  rw [← hlost, ← hr]

end Line.Follows

/-- What can happen on a line, once it is accepted or before. -/
inductive Line.Moves (l : Line) : LineEntry → Line → Prop where
  | send (item : FeedItem) (held : l.channel.senderHeld = true)
      (hc : l.channel.isClosed = false) :
      Moves l (.sent item)
        { l with channel := { l.channel with items := l.channel.items ++ [item] } }
  | take {item : FeedItem} {rest : List FeedItem} (held : l.channel.receiverHeld = true)
      (hc : l.cancelled = false) (hi : l.channel.items = item :: rest) :
      Moves l (.received item) { l with channel := { l.channel with items := rest } }
  | close : Moves l .closed l.close
  | drop : Moves l .dropped l.drop
  | dropFeed : Moves l .feedDropped l.dropFeed

namespace Line.Moves

variable {l l' : Line} {e : LineEntry} {log : LineLog} {deaf : Bool}

theorem follows (hm : l.Moves e l') (h : l.Follows log deaf) : l'.Follows (log ++ [e]) deaf := by
  cases hm with
  | send item _ hc =>
    have held : l.channel.receiverHeld = true := by simpa using (Bool.or_eq_false_iff.mp hc).2
    exact h.send held item
  | take held _ hi => exact h.take held hi
  | close => exact h.close
  | drop => exact h.drop
  | dropFeed => exact h.dropFeed

theorem url (hm : l.Moves e l') : l'.url = l.url := by
  cases hm with
  | close =>
    unfold Line.close
    split <;> rfl
  | send | take | drop | dropFeed => rfl

/-- Once the player's end is closed or dropped, nothing more is sent or received. -/
theorem silent (hm : l.Moves e l') (h : l.Follows log deaf)
    (hc : .closed ∈ log ∨ .dropped ∈ log) : e.sent? = none ∧ e.received? = none := by
  cases hm with
  | send item _ hopen =>
    rw [← h.isClosed_iff, h.isClosed_eq, hopen] at hc
    cases hc
  | take held hcancelled _ =>
    rcases hc with hc | hc
    · rw [h.cancelled.mpr hc] at hcancelled
      cases hcancelled
    · rw [h.dropped.mpr hc] at held
      cases held
  | close | drop | dropFeed => exact ⟨rfl, rfl⟩

end Line.Moves

/-- What asking a line gives, and what the line is then. -/
inductive Line.Receives (l : Line) : Option Reception → Line → Prop where
  | cancelled (hc : l.cancelled = true) : Receives l (some .closed) l
  | item {item : FeedItem} {rest : List FeedItem} (hc : l.cancelled = false)
      (hi : l.channel.items = item :: rest) :
      Receives l (some item.reception) { l with channel := { l.channel with items := rest } }
  | ended (hc : l.cancelled = false) (hi : l.channel.items = [])
      (he : (l.channel.closed || !l.channel.senderHeld) = true) : Receives l (some .closed) l
  | pending (hc : l.cancelled = false) (hi : l.channel.items = [])
      (he : (l.channel.closed || !l.channel.senderHeld) = false) : Receives l none l

theorem Line.receives (l : Line) : l.Receives l.receive.1 l.receive.2 := by
  unfold receive
  by_cases hc : l.cancelled = true
  · rw [if_pos hc]
    exact .cancelled hc
  · rw [if_neg hc]
    have hc := eq_false_of_ne_true hc
    cases hi : l.channel.items with
    | cons item rest =>
      simp only [Channel.receive, hi]
      exact .item hc hi
    | nil =>
      simp only [Channel.receive, hi]
      cases he : l.channel.closed || !l.channel.senderHeld with
      | true => exact .ended hc hi he
      | false => exact .pending hc hi he

namespace Line.Follows

variable {l : Line} {log : LineLog} {deaf : Bool} {item : FeedItem} {rest : List FeedItem}

theorem not_cancelled (h : l.Follows log deaf) (hc : .closed ∉ log) : ¬ l.cancelled = true :=
  fun hcancelled => hc (h.cancelled.mp hcancelled)

theorem items_of_sent (h : l.Follows log deaf) (held : l.channel.receiverHeld = true)
    {items : List FeedItem} (hs : log.sent = log.received ++ items) : l.channel.items = items := by
  rw [← h.carries.conserved held] at hs
  exact List.append_cancel_left hs

theorem receive_closed (h : l.Follows log deaf) (hc : .closed ∈ log) :
    l.receive = (some .closed, l) := by
  rw [receive, if_pos (h.cancelled.mpr hc)]

theorem receive_item (h : l.Follows log deaf) (held : l.channel.receiverHeld = true)
    (hc : .closed ∉ log) (hs : log.sent = log.received ++ item :: rest) :
    l.receive.1 = some item.reception := by
  rw [receive, if_neg (h.not_cancelled hc)]
  simp only [Channel.receive, h.items_of_sent held hs]

/-- When everything was received, the feed decides whether more may come. -/
theorem receive_rest (h : l.Follows log deaf) (held : l.channel.receiverHeld = true)
    (hc : .closed ∉ log) (hs : log.sent = log.received) :
    l.receive = (if l.channel.senderHeld then none else some .closed, l) := by
  have hitems : l.channel.items = [] := h.items_of_sent held (by rw [hs, List.append_nil])
  have hclosed : l.channel.closed = false :=
    h.closed.trans (eq_false_of_ne_true (h.not_cancelled hc))
  rw [receive, if_neg (h.not_cancelled hc)]
  cases hsender : l.channel.senderHeld <;>
    simp [Channel.receive, hitems, hclosed, hsender]

end Line.Follows

end LivePlayback
