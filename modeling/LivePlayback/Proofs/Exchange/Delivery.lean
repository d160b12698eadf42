import LivePlayback.Proofs.Exchange.Lines
import LivePlayback.Rehearsal.Exchange
import Mathlib.Data.List.Basic

/-!
# Delivery over an exchange

What the two ends of an exchange do is told by what they are granted: the tidings. Those about one
line are its log, and the line follows it, so what an end is answered next can be read off the
tidings.
-/

namespace LivePlayback
set_option autoImplicit false

open Rehearsal

/-- The item that is received, if it is not the end. -/
def Reception.item? : Reception → Option FeedItem
  | .frame f => some (.frame f)
  | .failed (.transport reason) => some (.fail reason)
  | _ => none

theorem FeedItem.item?_reception (item : FeedItem) : item.reception.item? = some item := by
  cases item <;> rfl

/-- What an end of an exchange is granted. -/
inductive Tiding where
  | connected (i : Nat) (url : String)
  | accepted (i : Nat) (url : String)
  /-- The host does not listen any more. -/
  | deafened
  /-- The host turns connects away, or does so no more. -/
  | refusing (on : Bool)
  /-- The player cannot connect any more. -/
  | connectorDropped
  | line (i : Nat) (e : LineEntry)

namespace Tiding

def of? : ExchangeStep → ExchangeReport → Option Tiding
  | .connect url, .transport i => some (.connected i url)
  | .accept, .accepted (.line i url) => some (.accepted i url)
  | .stopListening, .flag true => some .deafened
  | .refuse on, .flag true => some (.refusing on)
  | .dropConnector, .flag true => some .connectorDropped
  | .send i item, .flag true => some (.line i (.sent item))
  | .next i, .reception (some r) => r.item?.map fun item => .line i (.received item)
  | .close i, .flag true => some (.line i .closed)
  | .dropTransport i, .flag true => some (.line i .dropped)
  | .dropFeed i, .flag true => some (.line i .feedDropped)
  | _, _ => none

def connected? : Tiding → Option (String × Nat)
  | .connected i url => some (url, i)
  | _ => none

def accepted? : Tiding → Option (String × Nat)
  | .accepted i url => some (url, i)
  | _ => none

def isDeafened : Tiding → Bool
  | .deafened => true
  | _ => false

def refusing? : Tiding → Option Bool
  | .refusing on => some on
  | _ => none

def isConnectorDropped : Tiding → Bool
  | .connectorDropped => true
  | _ => false

def logged? (i : Nat) : Tiding → Option LineEntry
  | .line j e => if j = i then some e else none
  | .accepted j _ => if j = i then some .accepted else none
  | _ => none

end Tiding

/-- An exchange with the tidings so far, oldest first. -/
structure Traffic where
  exchange : Exchange
  tidings : List Tiding

namespace Traffic

def connects (t : Traffic) : List (String × Nat) := t.tidings.filterMap Tiding.connected?

def accepts (t : Traffic) : List (String × Nat) := t.tidings.filterMap Tiding.accepted?

def deaf (t : Traffic) : Bool := t.tidings.any Tiding.isDeafened

def refuses (t : Traffic) : Bool := (t.tidings.filterMap Tiding.refusing?).getLast?.getD false

def connectable (t : Traffic) : Bool := !t.tidings.any Tiding.isConnectorDropped

def log (t : Traffic) (i : Nat) : LineLog := t.tidings.filterMap (Tiding.logged? i)

def push (t : Traffic) (e : Exchange) (d : Option Tiding) : Traffic := ⟨e, t.tidings ++ d.toList⟩

def take (t : Traffic) (s : ExchangeStep) : Traffic :=
  let (report, e) := stepExchange t.exchange s
  t.push e (Tiding.of? s report)

def run (steps : List ExchangeStep) : Traffic := steps.foldl take ⟨.create, []⟩

/-- The tidings say how the exchange stands. -/
structure Sound (t : Traffic) : Prop where
  connects : t.connects = (t.exchange.lines.map Line.url).zipIdx
  accepts : t.accepts = t.connects.take t.exchange.acceptedCount
  counted : t.exchange.acceptedCount ≤ t.exchange.lines.length
  listening : t.exchange.listening = !t.deaf
  refusing : t.exchange.refusing = t.refuses
  connectable : t.exchange.connectable = t.connectable
  lines : ∀ (i : Nat) l, t.exchange.lines[i]? = some l → l.Follows (t.log i) t.deaf
  unopened : ∀ i, t.exchange.lines.length ≤ i → t.log i = []

variable {t : Traffic} {i : Nat} {l l' : Line} {e : Exchange} {entry : LineEntry}

section

variable (t : Traffic) (e : Exchange) (d : Tiding)

@[simp] theorem push_exchange (d : Option Tiding) : (t.push e d).exchange = e := rfl

theorem push_rest : t.push t.exchange none = t := by
  simp [push]

theorem connects_push : (t.push e (some d)).connects = t.connects ++ d.connected?.toList := by
  cases h : d.connected? <;> simp [connects, push, h]

theorem accepts_push : (t.push e (some d)).accepts = t.accepts ++ d.accepted?.toList := by
  cases h : d.accepted? <;> simp [accepts, push, h]

theorem deaf_push : (t.push e (some d)).deaf = (t.deaf || d.isDeafened) := by
  simp [deaf, push]

theorem refuses_push : (t.push e (some d)).refuses = d.refusing?.getD t.refuses := by
  cases h : d.refusing? <;> simp [refuses, push, h]

theorem connectable_push :
    (t.push e (some d)).connectable = (t.connectable && !d.isConnectorDropped) := by
  simp [connectable, push]

theorem log_push (i : Nat) : (t.push e (some d)).log i = t.log i ++ (d.logged? i).toList := by
  cases h : d.logged? i <;> simp [log, push, h]

end

namespace Sound

theorem create : Sound ⟨.create, []⟩ :=
  ⟨rfl, rfl, Nat.le_refl _, rfl, rfl, rfl, fun _ _ hl => by simp [Exchange.create] at hl,
    fun _ _ => rfl⟩

theorem length_connects (h : t.Sound) : t.connects.length = t.exchange.lines.length := by
  simp [h.connects]

/-- A tiding that is not about any line. -/
theorem aside (h : t.Sound) {d : Tiding} (hl : e.lines = t.exchange.lines)
    (ha : e.acceptedCount = t.exchange.acceptedCount) (he : e.listening = t.exchange.listening)
    (hr : e.refusing = d.refusing?.getD t.refuses)
    (hk : e.connectable = (t.connectable && !d.isConnectorDropped)) (hc : d.connected? = none)
    (hn : d.accepted? = none) (hd : d.isDeafened = false) (hi : ∀ i, d.logged? i = none) :
    (t.push e (some d)).Sound := by
  have hlog (i : Nat) : (t.push e (some d)).log i = t.log i := by
    rw [log_push, hi]
    exact List.append_nil _
  have hconnects : (t.push e (some d)).connects = t.connects := by
    rw [connects_push, hc]
    exact List.append_nil _
  have hdeaf : (t.push e (some d)).deaf = t.deaf := by
    rw [deaf_push, hd, Bool.or_false]
  refine ⟨?_, ?_, ?_, ?_, ?_, ?_, ?_, ?_⟩
  · rw [hconnects, push_exchange, hl]
    exact h.connects
  · rw [accepts_push, hn, hconnects, push_exchange, ha]
    exact (List.append_nil _).trans h.accepts
  · rw [push_exchange, hl, ha]
    exact h.counted
  · rw [hdeaf, push_exchange, he]
    exact h.listening
  · rw [refuses_push]
    exact hr
  · rw [connectable_push]
    exact hk
  · intro i l hl'
    rw [hlog, hdeaf]
    exact h.lines i l (hl ▸ hl')
  · intro i hle
    rw [hlog]
    exact h.unopened i (hl ▸ hle)

/-- What is told of the lines, if something happens on one of them. -/
theorem follows_set (h : t.Sound) (hl : t.exchange.lines[i]? = some l)
    (hf : l'.Follows (t.log i ++ [entry]) t.deaf) {d : Tiding}
    (hd : ∀ j, d.logged? j = if i = j then some entry else none) {j : Nat} {m : Line}
    (hm : (t.exchange.lines.set i l')[j]? = some m) :
    m.Follows (t.log j ++ (d.logged? j).toList) t.deaf := by
  have hlt : i < t.exchange.lines.length := (List.getElem?_eq_some_iff.mp hl).1
  rw [List.getElem?_set] at hm
  by_cases hj : i = j
  · subst hj
    rw [if_pos rfl, if_pos hlt] at hm
    cases hm
    simpa [hd] using hf
  · rw [if_neg hj] at hm
    simpa [hd, hj] using h.lines j m hm

theorem unopened_set (h : t.Sound) (hl : t.exchange.lines[i]? = some l) {d : Tiding}
    (hd : ∀ j, d.logged? j = if i = j then some entry else none) {j : Nat}
    (hj : t.exchange.lines.length ≤ j) : t.log j ++ (d.logged? j).toList = [] := by
  have hlt : i < t.exchange.lines.length := (List.getElem?_eq_some_iff.mp hl).1
  have hne : i ≠ j := by omega
  simp [h.unopened j hj, hd, hne]

theorem urls_set (hl : t.exchange.lines[i]? = some l) (hu : l'.url = l.url) :
    (t.exchange.lines.set i l').map Line.url = t.exchange.lines.map Line.url := by
  obtain ⟨hlt, rfl⟩ := List.getElem?_eq_some_iff.mp hl
  apply List.ext_getElem?
  intro j
  simp only [List.getElem?_map, List.getElem?_set]
  by_cases hj : i = j
  · subst hj
    simp [hlt, hu]
  · simp [hj]

theorem line (h : t.Sound) (hl : t.exchange.lines[i]? = some l) (hm : l.Moves entry l') :
    (t.push (t.exchange.set i l') (some (.line i entry))).Sound := by
  have hd (j : Nat) : (Tiding.line i entry).logged? j = if i = j then some entry else none := rfl
  refine ⟨?_, ?_, ?_, ?_, ?_, ?_, ?_, ?_⟩
  · rw [connects_push]
    simpa only [Tiding.connected?, push_exchange, Exchange.set, urls_set hl hm.url,
      Option.toList_none, List.append_nil] using h.connects
  · rw [accepts_push, connects_push]
    simpa [Tiding.connected?, Tiding.accepted?, Exchange.set] using h.accepts
  · simpa [Exchange.set] using h.counted
  · rw [deaf_push]
    simpa [Tiding.isDeafened, Exchange.set] using h.listening
  · rw [refuses_push]
    exact h.refusing
  · rw [connectable_push]
    exact h.connectable.trans (Bool.and_true _).symm
  · intro j m hj
    rw [log_push, deaf_push]
    simpa [Tiding.isDeafened] using h.follows_set hl (hm.follows (h.lines i l hl)) hd hj
  · intro j hj
    rw [log_push]
    exact h.unopened_set hl hd (by simpa [Exchange.set] using hj)

theorem accept (h : t.Sound) (hl : t.exchange.lines[t.exchange.acceptedCount]? = some l)
    (hdeaf : t.deaf = false) :
    (t.push { t.exchange.set t.exchange.acceptedCount { l with accepted := true } with
      acceptedCount := t.exchange.acceptedCount + 1 }
      (some (.accepted t.exchange.acceptedCount l.url))).Sound := by
  generalize hn : t.exchange.acceptedCount = n at hl ⊢
  have hlt : n < t.exchange.lines.length := (List.getElem?_eq_some_iff.mp hl).1
  have hd (j : Nat) :
      (Tiding.accepted n l.url).logged? j = if n = j then some .accepted else none := rfl
  have hfollows : { l with accepted := true }.Follows (t.log n ++ [LineEntry.accepted]) t.deaf := by
    rw [hdeaf]
    exact (hdeaf ▸ h.lines n l hl).accept
  have hurls : (t.exchange.lines.set n { l with accepted := true }).map Line.url =
      t.exchange.lines.map Line.url := urls_set hl rfl
  have hnext : t.connects[n]? = some (l.url, n) := by
    rw [h.connects]
    simp [hl]
  refine ⟨?_, ?_, ?_, ?_, ?_, ?_, ?_, ?_⟩
  · rw [connects_push]
    simpa only [Tiding.connected?, push_exchange, Exchange.set, hurls, Option.toList_none,
      List.append_nil] using h.connects
  · rw [accepts_push, connects_push, h.accepts, hn]
    simp [Tiding.connected?, Tiding.accepted?, List.take_add_one, hnext]
  · have hle : n + 1 ≤ t.exchange.lines.length := hlt
    simpa [Exchange.set] using hle
  · rw [deaf_push]
    simpa [Tiding.isDeafened, Exchange.set] using h.listening
  · rw [refuses_push]
    exact h.refusing
  · rw [connectable_push]
    exact h.connectable.trans (Bool.and_true _).symm
  · intro j m hm
    rw [log_push, deaf_push]
    simpa [Tiding.isDeafened] using h.follows_set hl hfollows hd hm
  · intro j hj
    rw [log_push]
    exact h.unopened_set hl hd (by simpa [Exchange.set] using hj)

theorem connect (h : t.Sound) (url : String) (hdeaf : t.deaf = false) :
    (t.push { t.exchange with lines := t.exchange.lines ++ [.create url] }
      (some (.connected t.exchange.lines.length url))).Sound := by
  have hlog (e : Exchange) (j : Nat) :
      (t.push e (some (.connected t.exchange.lines.length url))).log j = t.log j := by
    rw [log_push]
    exact List.append_nil _
  refine ⟨?_, ?_, ?_, ?_, ?_, ?_, ?_, ?_⟩
  · rw [connects_push, h.connects]
    simp [Tiding.connected?, Line.create, List.zipIdx_append]
  · rw [accepts_push, connects_push, h.accepts]
    have hle : t.exchange.acceptedCount ≤ t.connects.length := h.length_connects ▸ h.counted
    simp [Tiding.accepted?, List.take_append_of_le_length hle]
  · have hle := h.counted
    simp only [push_exchange, List.length_append, List.length_singleton]
    omega
  · rw [deaf_push]
    simpa [Tiding.isDeafened] using h.listening
  · rw [refuses_push]
    exact h.refusing
  · rw [connectable_push]
    exact h.connectable.trans (Bool.and_true _).symm
  · intro j m hm
    rw [hlog, deaf_push]
    simp only [push_exchange, List.getElem?_append] at hm
    split at hm
    · simpa [Tiding.isDeafened] using h.lines j m hm
    · rename_i hle
      rw [List.getElem?_singleton] at hm
      split at hm
      · cases hm
        rw [h.unopened j (Nat.le_of_not_lt hle), hdeaf]
        exact Line.Follows.create url
      · cases hm
  · intro j hj
    rw [hlog]
    simp only [push_exchange, List.length_append, List.length_singleton] at hj
    exact h.unopened j (by omega)

theorem deafen (h : t.Sound) : (t.push t.exchange.stopListening (some .deafened)).Sound := by
  have hlog (j : Nat) : (t.push t.exchange.stopListening (some .deafened)).log j = t.log j := by
    rw [log_push]
    exact List.append_nil _
  have hurls : t.exchange.stopListening.lines.map Line.url = t.exchange.lines.map Line.url := by
    simp only [Exchange.stopListening, List.map_map]
    apply List.map_congr_left
    intro l _
    simp only [Function.comp_apply]
    split <;> rfl
  refine ⟨?_, ?_, ?_, ?_, ?_, ?_, ?_, ?_⟩
  · rw [connects_push, h.connects, push_exchange, hurls]
    exact List.append_nil _
  · rw [accepts_push, connects_push, h.accepts]
    simp [Tiding.connected?, Tiding.accepted?, Exchange.stopListening]
  · simpa [Exchange.stopListening] using h.counted
  · rw [deaf_push]
    simp [Tiding.isDeafened, Exchange.stopListening]
  · rw [refuses_push]
    exact h.refusing
  · rw [connectable_push]
    exact h.connectable.trans (Bool.and_true _).symm
  · intro j m hm
    rw [hlog, deaf_push]
    simp only [push_exchange, Exchange.stopListening, List.getElem?_map,
      Option.map_eq_some_iff] at hm
    obtain ⟨l, hl, rfl⟩ := hm
    simpa [Tiding.isDeafened] using (h.lines j l hl).deafen
  · intro j hj
    rw [hlog]
    exact h.unopened j (by simpa [Exchange.stopListening] using hj)

end Sound

/-! ## Steps -/

theorem set_self (hl : t.exchange.lines[i]? = some l) : t.exchange.set i l = t.exchange := by
  obtain ⟨_, rfl⟩ := List.getElem?_eq_some_iff.mp hl
  simp [Exchange.set]

/-- What a step can do. -/
inductive Takes (t : Traffic) : Traffic → Prop where
  | idle : Takes t (t.push t.exchange none)
  | line {i : Nat} {l l' : Line} {entry : LineEntry} (hl : t.exchange.lines[i]? = some l)
      (hm : l.Moves entry l') : Takes t (t.push (t.exchange.set i l') (some (.line i entry)))
  | accept {l : Line} (hl : t.exchange.lines[t.exchange.acceptedCount]? = some l)
      (hdeaf : t.deaf = false) :
      Takes t (t.push { t.exchange.set t.exchange.acceptedCount { l with accepted := true } with
        acceptedCount := t.exchange.acceptedCount + 1 }
        (some (.accepted t.exchange.acceptedCount l.url)))
  | connect (url : String) (hdeaf : t.deaf = false) :
      Takes t (t.push { t.exchange with lines := t.exchange.lines ++ [.create url] }
        (some (.connected t.exchange.lines.length url)))
  | deafen : Takes t (t.push t.exchange.stopListening (some .deafened))
  | refuse (on : Bool) :
      Takes t (t.push { t.exchange with refusing := on } (some (.refusing on)))
  | dropConnector :
      Takes t (t.push { t.exchange with connectable := false } (some .connectorDropped))

namespace Takes

theorem of_next (t : Traffic) (i : Nat) : t.Takes (t.take (.next i)) := by
  unfold Traffic.take
  cases ht : t.exchange.transport? i with
  | none =>
    simp only [stepExchange, ht]
    exact .idle
  | some l =>
    obtain ⟨hl, held⟩ := Option.filter_eq_some_iff.mp ht
    have hreceives := l.receives
    simp only [stepExchange, ht]
    generalize l.receive.1 = r at hreceives ⊢
    generalize l.receive.2 = l' at hreceives ⊢
    cases hreceives with
    | cancelled | ended | pending =>
      rw [set_self hl]
      exact .idle
    | @item item rest hc hi =>
      simp only [Tiding.of?, item.item?_reception, Option.map_some]
      exact .line hl (.take held hc hi)

theorem of_send (t : Traffic) (i : Nat) (item : FeedItem) : t.Takes (t.take (.send i item)) := by
  unfold Traffic.take
  cases hf : t.exchange.feed? i with
  | none =>
    simp only [stepExchange, Exchange.send, hf]
    exact .idle
  | some l =>
    obtain ⟨hl, hfeed⟩ := Option.filter_eq_some_iff.mp hf
    have held : l.channel.senderHeld = true := (Bool.and_eq_true_iff.mp hfeed).2
    simp only [stepExchange, Exchange.send, hf, Line.send, Channel.send]
    cases hc : l.channel.isClosed with
    | true =>
      rw [if_pos rfl, set_self hl]
      exact .idle
    | false =>
      rw [if_neg Bool.false_ne_true]
      exact .line hl (.send item held hc)

theorem of_close (t : Traffic) (i : Nat) : t.Takes (t.take (.close i)) := by
  unfold Traffic.take
  cases ht : t.exchange.transport? i with
  | none =>
    simp only [stepExchange, ht]
    exact .idle
  | some l =>
    obtain ⟨hl, _⟩ := Option.filter_eq_some_iff.mp ht
    simp only [stepExchange, ht]
    exact .line hl .close

theorem of_dropTransport (h : t.Sound) (i : Nat) : t.Takes (t.take (.dropTransport i)) := by
  unfold Traffic.take
  simp only [stepExchange, Exchange.modify, List.modify_eq_set_getElem?]
  cases hl : t.exchange.lines[i]? with
  | none =>
    simp only [Exchange.transport?, hl]
    exact .idle
  | some l =>
    cases held : l.channel.receiverHeld with
    | true =>
      simp only [Exchange.transport?, hl, Option.filter, held]
      exact .line hl .drop
    | false =>
      have hset := set_self hl
      simp only [Exchange.transport?, hl, Option.filter, held, Option.map_eq_map, Option.map_some,
        Option.getD_some, (h.lines i l hl).drop_eq held]
      rw [Exchange.set] at hset
      rw [hset]
      exact .idle

theorem of_dropFeed (t : Traffic) (i : Nat) : t.Takes (t.take (.dropFeed i)) := by
  unfold Traffic.take
  cases hf : t.exchange.feed? i with
  | none =>
    simp only [stepExchange, hf]
    exact .idle
  | some l =>
    obtain ⟨hl, _⟩ := Option.filter_eq_some_iff.mp hf
    simp only [stepExchange, hf]
    exact .line hl .dropFeed

theorem of_connect (h : t.Sound) (url : String) : t.Takes (t.take (.connect url)) := by
  unfold Traffic.take
  simp only [stepExchange, Exchange.connect]
  split
  · by_cases hr : t.exchange.refusing = true
    · rw [if_pos hr]
      exact .idle
    · rw [if_neg hr]
      by_cases hlisten : t.exchange.listening = true
      · rw [if_neg (by simp [hlisten])]
        exact .connect url (by simpa [hlisten] using h.listening)
      · rw [if_pos (by simpa using hlisten)]
        exact .idle
  · exact .idle

theorem of_accept (h : t.Sound) : t.Takes (t.take .accept) := by
  unfold Traffic.take
  simp only [stepExchange, Exchange.accept]
  by_cases hlisten : t.exchange.listening = true
  · rw [if_pos hlisten]
    cases hl : t.exchange.lines[t.exchange.acceptedCount]? with
    | none => cases t.exchange.connectable <;> exact .idle
    | some l =>
      simp only [Exchange.modify, List.modify_eq_set_getElem?, hl]
      exact .accept hl (by simpa [hlisten] using h.listening)
  · rw [if_neg hlisten]
    exact .idle

/-- Once the host does not listen all feeds that it did not accept are gone. -/
theorem stopListening_eq (h : t.Sound) (hl : t.exchange.listening = false) :
    t.exchange.stopListening = t.exchange := by
  have hdeaf : t.deaf = true := by simpa [hl] using h.listening
  have hline : ∀ l ∈ t.exchange.lines, (if l.accepted then l else l.dropFeed) = l := by
    intro l hmem
    obtain ⟨i, hi⟩ := List.mem_iff_getElem?.mp hmem
    have hfollows := h.lines i l hi
    split
    · rfl
    · rename_i ha
      have hgone : l.channel.senderHeld = false :=
        hfollows.feedGone.mpr (.inr ⟨fun hm => ha (hfollows.accepted.mpr hm), hdeaf⟩)
      unfold Line.dropFeed Channel.dropSender
      rw [← hgone]
  unfold Exchange.stopListening
  rw [List.map_congr_left hline, List.map_id', ← hl]

theorem of_stopListening (h : t.Sound) : t.Takes (t.take .stopListening) := by
  unfold Traffic.take
  simp only [stepExchange]
  cases hlisten : t.exchange.listening with
  | true => exact .deafen
  | false =>
    rw [stopListening_eq h hlisten]
    exact .idle

theorem of_dropConnector (t : Traffic) : t.Takes (t.take .dropConnector) := by
  unfold Traffic.take
  simp only [stepExchange]
  cases hconnectable : t.exchange.connectable with
  | true => exact .dropConnector
  | false =>
    have hsame : { t.exchange with connectable := false } = t.exchange := by rw [← hconnectable]
    rw [hsame]
    exact .idle

/-- A host that does not listen turns nobody away. -/
theorem of_refuse (t : Traffic) (on : Bool) : t.Takes (t.take (.refuse on)) := by
  unfold Traffic.take
  simp only [stepExchange]
  by_cases hlisten : t.exchange.listening = true
  · have hof : Tiding.of? (.refuse on) (.flag t.exchange.listening) = some (.refusing on) := by
      rw [hlisten]
      rfl
    rw [if_pos hlisten, hof]
    exact .refuse on
  · have hof : Tiding.of? (.refuse on) (.flag t.exchange.listening) = none := by
      rw [eq_false_of_ne_true hlisten]
      rfl
    rw [if_neg hlisten, hof]
    exact .idle

theorem of_step (h : t.Sound) (s : ExchangeStep) : t.Takes (t.take s) := by
  cases s with
  | next i => exact of_next t i
  | send i item => exact of_send t i item
  | close i => exact of_close t i
  | dropTransport i => exact of_dropTransport h i
  | dropFeed i => exact of_dropFeed t i
  | connect url => exact of_connect h url
  | accept => exact of_accept h
  | stopListening => exact of_stopListening h
  | dropConnector => exact of_dropConnector t
  | refuse on => exact of_refuse t on
  | isClosed | other => exact .idle

theorem sound {t' : Traffic} (ht : t.Takes t') (h : t.Sound) : t'.Sound := by
  cases ht with
  | idle =>
    rw [push_rest]
    exact h
  | line hl hm => exact h.line hl hm
  | accept hl hdeaf => exact h.accept hl hdeaf
  | connect url hdeaf => exact h.connect url hdeaf
  | deafen => exact h.deafen
  | refuse on =>
    exact h.aside rfl rfl rfl rfl (h.connectable.trans (Bool.and_true _).symm) rfl rfl rfl
      fun _ => rfl
  | dropConnector =>
    exact h.aside rfl rfl rfl h.refusing (Bool.and_false _).symm rfl rfl rfl fun _ => rfl

/-- The log of a line on which nothing more is sent or received. -/
theorem log_of_shut {t' : Traffic} (ht : t.Takes t') (h : t.Sound)
    (hc : .closed ∈ t.log i ∨ .dropped ∈ t.log i) : ∃ later : LineLog,
      t'.log i = t.log i ++ later ∧ later.sent = [] ∧ later.received = [] := by
  cases ht with
  | idle =>
    rw [push_rest]
    exact ⟨[], (List.append_nil _).symm, rfl, rfl⟩
  | connect | deafen | refuse | dropConnector =>
    rw [log_push]
    exact ⟨[], rfl, rfl, rfl⟩
  | accept =>
    rw [log_push]
    refine ⟨_, rfl, ?_⟩
    simp only [Tiding.logged?]
    split <;> exact ⟨rfl, rfl⟩
  | @line j l l' entry hl hm =>
    rw [log_push]
    refine ⟨_, rfl, ?_⟩
    simp only [Tiding.logged?]
    split
    · rename_i hj
      subst hj
      obtain ⟨hs, hr⟩ := hm.silent (h.lines j l hl) hc
      simp [LineLog.sent, LineLog.received, hs, hr]
    · exact ⟨rfl, rfl⟩

end Takes

theorem Sound.foldl (h : t.Sound) (steps : List ExchangeStep) : (steps.foldl take t).Sound := by
  induction steps generalizing t with
  | nil => exact h
  | cons s steps ih => exact ih ((Takes.of_step h s).sound h)

theorem Sound.log_of_shut (h : t.Sound) (steps : List ExchangeStep)
    (hc : .closed ∈ t.log i ∨ .dropped ∈ t.log i) : ∃ later : LineLog,
      (steps.foldl take t).log i = t.log i ++ later ∧ later.sent = [] ∧ later.received = [] := by
  induction steps generalizing t with
  | nil => exact ⟨[], (List.append_nil _).symm, rfl, rfl⟩
  | cons s steps ih =>
    have htakes := Takes.of_step h s
    obtain ⟨first, hfirst, hs, hr⟩ := htakes.log_of_shut h hc
    have hc' : .closed ∈ (t.take s).log i ∨ .dropped ∈ (t.take s).log i := by
      rw [hfirst]
      exact hc.imp (List.mem_append_left first) (List.mem_append_left first)
    obtain ⟨later, hlater, hs', hr'⟩ := ih (htakes.sound h) hc'
    refine ⟨first ++ later, ?_, ?_, ?_⟩
    · rw [List.foldl_cons, hlater, hfirst, List.append_assoc]
    · rw [LineLog.sent, List.filterMap_append]
      exact List.append_eq_nil_iff.mpr ⟨hs, hs'⟩
    · rw [LineLog.received, List.filterMap_append]
      exact List.append_eq_nil_iff.mpr ⟨hr, hr'⟩

/-! ## Answers -/

/-- The player has this end of the line still. -/
def HasTransport (t : Traffic) (i : Nat) : Prop := i < t.connects.length ∧ .dropped ∉ t.log i

def HasFeed (t : Traffic) (i : Nat) : Prop := .accepted ∈ t.log i ∧ .feedDropped ∉ t.log i

namespace Sound

theorem connect_next (h : t.Sound) (hk : t.connectable = true) (url : String) :
    (stepExchange t.exchange (.connect url)).1 =
      if t.refuses then .failed (.transport (url ++ ": connection refused"))
      else if t.deaf then .failed (.transport (url ++ ": no listener"))
      else .transport t.connects.length := by
  have hconnectable : t.exchange.connectable = true := h.connectable.trans hk
  rw [← h.refusing, h.length_connects]
  simp only [stepExchange, hconnectable, Exchange.connect, h.listening, Bool.not_not]
  cases t.exchange.refusing <;> cases t.deaf <;> rfl

theorem accept_next {url : String} (h : t.Sound) (hdeaf : t.deaf = false)
    (hnext : t.connects[t.accepts.length]? = some (url, i)) :
    (stepExchange t.exchange .accept).1 = .accepted (.line i url) := by
  have hlisten : t.exchange.listening = true := by simpa [hdeaf] using h.listening
  have hcount : t.accepts.length = t.exchange.acceptedCount := by
    have hle := h.counted
    rw [h.accepts, List.length_take, h.length_connects]
    omega
  rw [hcount, h.connects] at hnext
  simp only [List.getElem?_zipIdx, List.getElem?_map, Option.map_map,
    Option.map_eq_some_iff] at hnext
  obtain ⟨l, hl, hpair⟩ := hnext
  cases hpair
  simp [stepExchange, hlisten, Exchange.accept, hl]

theorem exists_transport (h : t.Sound) (ht : t.HasTransport i) :
    ∃ l, t.exchange.transport? i = some l ∧ l.Follows (t.log i) t.deaf ∧
      t.exchange.set i l = t.exchange ∧ l.channel.receiverHeld = true := by
  obtain ⟨hlt, hd⟩ := ht
  rw [h.length_connects] at hlt
  have hl : t.exchange.lines[i]? = some t.exchange.lines[i] := List.getElem?_eq_getElem hlt
  have hfollows := h.lines i _ hl
  have held : t.exchange.lines[i].channel.receiverHeld = true := by
    rw [← Bool.not_eq_false]
    exact fun hr => hd (hfollows.dropped.mp hr)
  refine ⟨_, ?_, hfollows, set_self hl, held⟩
  rw [Exchange.transport?, hl, Option.filter_eq_some_iff]
  exact ⟨rfl, held⟩

theorem exists_feed (h : t.Sound) (hf : t.HasFeed i) :
    ∃ l, t.exchange.feed? i = some l ∧ l.Follows (t.log i) t.deaf ∧
      t.exchange.set i l = t.exchange := by
  obtain ⟨ha, hd⟩ := hf
  have hlt : i < t.exchange.lines.length := by
    apply Nat.lt_of_not_le
    intro hle
    rw [h.unopened i hle] at ha
    cases ha
  have hl : t.exchange.lines[i]? = some t.exchange.lines[i] := List.getElem?_eq_getElem hlt
  have hfollows := h.lines i _ hl
  have held : t.exchange.lines[i].channel.senderHeld = true := by
    rw [← Bool.not_eq_false, hfollows.feedGone]
    rintro (hm | ⟨hm, _⟩)
    · exact hd hm
    · exact hm ha
  refine ⟨_, ?_, hfollows, set_self hl⟩
  rw [Exchange.feed?, hl, Option.filter_eq_some_iff]
  exact ⟨rfl, Bool.and_eq_true_iff.mpr ⟨hfollows.accepted.mpr ha, held⟩⟩

end Sound

/-- What the ends of an exchange are answered next. -/
structure Delivers (t : Traffic) : Prop where
  /-- A connect opens the next line, unless the host turns it away or does not listen. -/
  connect : ∀ url, t.connectable = true → (stepExchange t.exchange (.connect url)).1 =
    if t.refuses then .failed (.transport (url ++ ": connection refused"))
    else if t.deaf then .failed (.transport (url ++ ": no listener"))
    else .transport t.connects.length
  /-- Feeds are accepted in the order in which their connects succeeded. -/
  numbered : t.connects.map Prod.snd = List.range t.connects.length
  inOrder : t.accepts <+: t.connects
  accept : ∀ i url, t.deaf = false → t.connects[t.accepts.length]? = some (url, i) →
    (stepExchange t.exchange .accept).1 = .accepted (.line i url)
  received : ∀ i, (t.log i).received <+: (t.log i).sent
  next_item : ∀ i item rest, t.HasTransport i → .closed ∉ t.log i →
    (t.log i).sent = (t.log i).received ++ item :: rest →
      (stepExchange t.exchange (.next i)).1 = .reception (some item.reception)
  /-- All that was sent is received before the end; asking in vain changes nothing. -/
  next_end : ∀ i, t.HasTransport i → .closed ∉ t.log i → (t.log i).sent = (t.log i).received →
    (t.log i).FeedGone t.deaf →
      stepExchange t.exchange (.next i) = (.reception (some .closed), t.exchange)
  next_pending : ∀ i, t.HasTransport i → .closed ∉ t.log i →
    (t.log i).sent = (t.log i).received → ¬ (t.log i).FeedGone t.deaf →
      stepExchange t.exchange (.next i) = (.reception none, t.exchange)
  next_closed : ∀ i, t.HasTransport i → .closed ∈ t.log i →
    stepExchange t.exchange (.next i) = (.reception (some .closed), t.exchange)
  close : ∀ i, t.HasTransport i → (stepExchange t.exchange (.close i)).1 = .flag true
  drop : ∀ i, t.HasTransport i → (stepExchange t.exchange (.dropTransport i)).1 = .flag true
  /-- What cannot be sent leaves no trace. -/
  send : ∀ i item, t.HasFeed i → ∃ sent,
    (stepExchange t.exchange (.send i item)).1 = .flag sent ∧
      (sent = true ↔ .closed ∉ t.log i ∧ .dropped ∉ t.log i) ∧
      (sent = false → (stepExchange t.exchange (.send i item)).2 = t.exchange)
  isClosed : ∀ i, t.HasFeed i → ∃ closed,
    stepExchange t.exchange (.isClosed i) = (.flag closed, t.exchange) ∧
      (closed = true ↔ .closed ∈ t.log i ∨ .dropped ∈ t.log i)
  /-- What was not received when the player's end was given up never is. -/
  gone : ∀ i (steps : List ExchangeStep), .closed ∈ t.log i ∨ .dropped ∈ t.log i →
    ∃ later : LineLog, (steps.foldl take t).log i = t.log i ++ later ∧ later.sent = [] ∧
      later.received = []

/-- Whatever the two ends do, each line delivers what was sent on it. -/
theorem exchange_delivers (steps : List ExchangeStep) : (run steps).Delivers := by
  have h : (run steps).Sound := Sound.create.foldl steps
  generalize run steps = t at h
  have hnumbered : t.connects.map Prod.snd = List.range t.connects.length := by
    simp [h.connects, List.range_eq_range']
  refine ⟨?_, hnumbered, ?_, ?_, ?_, ?_, ?_, ?_, ?_, ?_, ?_, ?_, ?_, ?_⟩
  · intro url hk
    exact h.connect_next hk url
  · rw [h.accepts]
    exact List.take_prefix _ _
  · intro i url hdeaf hnext
    exact h.accept_next hdeaf hnext
  · intro i
    by_cases hlt : i < t.exchange.lines.length
    · exact (h.lines i _ (List.getElem?_eq_getElem hlt)).carries.received
    · rw [h.unopened i (Nat.le_of_not_lt hlt)]
      exact List.prefix_refl _
  · intro i item rest ht hc hs
    obtain ⟨l, hl, hfollows, _, held⟩ := h.exists_transport ht
    simp only [stepExchange, hl, hfollows.receive_item held hc hs]
  · intro i ht hc hs hgone
    obtain ⟨l, hl, hfollows, hset, held⟩ := h.exists_transport ht
    have hsender : l.channel.senderHeld = false := hfollows.feedGone.mpr hgone
    simp [stepExchange, hl, hfollows.receive_rest held hc hs, hsender, hset]
  · intro i ht hc hs hgone
    obtain ⟨l, hl, hfollows, hset, held⟩ := h.exists_transport ht
    have hsender : l.channel.senderHeld = true := by
      rw [← Bool.not_eq_false, hfollows.feedGone]
      exact hgone
    simp [stepExchange, hl, hfollows.receive_rest held hc hs, hsender, hset]
  · intro i ht hc
    obtain ⟨l, hl, hfollows, hset, _⟩ := h.exists_transport ht
    simp only [stepExchange, hl, hfollows.receive_closed hc, hset]
  · intro i ht
    obtain ⟨l, hl, _⟩ := h.exists_transport ht
    simp only [stepExchange, hl]
  · intro i ht
    obtain ⟨l, hl, _⟩ := h.exists_transport ht
    simp only [stepExchange, hl, Option.isSome_some]
  · intro i item hf
    obtain ⟨l, hl, hfollows, hset⟩ := h.exists_feed hf
    refine ⟨!l.isClosed, ?_, ?_, fun hc => ?_⟩
    · simp [stepExchange, Exchange.send, hl, hfollows.send_fst, ExchangeReport.ofFlag?]
    · rw [Bool.not_eq_true', ← Bool.not_eq_true, hfollows.isClosed_iff, not_or]
    · have hclosed : l.isClosed = true := by simpa using hc
      simp [stepExchange, Exchange.send, hl, hfollows.send_of_isClosed hclosed, hset]
  · intro i hf
    obtain ⟨l, hl, hfollows, _⟩ := h.exists_feed hf
    exact ⟨l.isClosed, by simp [stepExchange, hl, ExchangeReport.ofFlag?], hfollows.isClosed_iff⟩
  · intro i steps hc
    exact h.log_of_shut steps hc

/-- The first connect is refused. Of what is sent on the line of the second one some is received,
some is lost when the line is closed, and some cannot be sent any more. -/
theorem exchange_delivers_of_close :
    let steps : List ExchangeStep := [.refuse true, .connect "ws://x", .refuse false,
      .connect "ws://x", .accept, .send 0 (.fail "a"), .send 0 (.fail "b"), .next 0, .close 0,
      .send 0 (.fail "c")]
    let t := run steps
    t.Delivers ∧ t.connects = [("ws://x", 0)] ∧ (t.log 0).sent = [.fail "a", .fail "b"] ∧
      (t.log 0).received = [.fail "a"] ∧
      stepExchange t.exchange (.next 0) = (.reception (some .closed), t.exchange) ∧
      (stepExchange t.exchange (.connect "ws://y")).1 = .transport 1 := by
  intro steps t
  have hdelivers := exchange_delivers steps
  have hlog : t.log 0 = [.accepted, .sent (.fail "a"), .sent (.fail "b"), .received (.fail "a"),
      .closed] := rfl
  have htransport : t.HasTransport 0 := ⟨Nat.zero_lt_one, by simp [hlog]⟩
  have hclosed : .closed ∈ t.log 0 := by simp [hlog]
  exact ⟨hdelivers, rfl, rfl, rfl, hdelivers.next_closed 0 htransport hclosed,
    hdelivers.connect "ws://y" rfl⟩

end Traffic

end LivePlayback
