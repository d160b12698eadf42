import LivePlayback.Proofs.Latest.Thinning
import LivePlayback.Session.Updates

/-!
# What a reader of the latest value meets

A reader meets a value by looking while it is the latest one. What it was given, followed by what it
still holds, are values at increasing positions, and the last of them is the latest value of its
last look; so a reader that has seen everything and holds nothing was given the last value.
-/

namespace LivePlayback
set_option autoImplicit false

variable {α : Type}

/-- Items that were published at increasing positions, none of them before the one that was the
latest when `base` of them were there. -/
structure Picks (published : List α) (base : Nat) (positions : List Nat) (items : List α) :
    Prop where
  increasing : positions.Pairwise (· < ·)
  values : positions.map (published[·]?) = items.map some
  since : ∀ q ∈ positions, base ≤ q + 1

namespace Picks

variable {published later items : List α} {base q : Nat} {positions : List Nat} {a : α}

theorem nil (published : List α) (base : Nat) : Picks published base [] [] :=
  ⟨.nil, rfl, nofun⟩

theorem length (h : Picks published base positions items) : positions.length = items.length := by
  simpa using congrArg List.length h.values

theorem exists_value (h : Picks published base positions items) (hq : q ∈ positions) :
    ∃ a ∈ items, published[q]? = some a := by
  have hmem : published[q]? ∈ items.map some := h.values ▸ List.mem_map_of_mem hq
  obtain ⟨a, ha, heq⟩ := List.mem_map.mp hmem
  exact ⟨a, ha, heq.symm⟩

theorem lt_length (h : Picks published base positions items) (hq : q ∈ positions) :
    q < published.length := by
  obtain ⟨a, _, ha⟩ := h.exists_value hq
  exact (List.getElem?_eq_some_iff.mp ha).1

theorem publish (h : Picks published base positions items) (hl : published <+: later) :
    Picks later base positions items := by
  obtain ⟨rest, rfl⟩ := hl
  refine ⟨h.increasing, ?_, h.since⟩
  rw [← h.values]
  apply List.map_congr_left
  intro q hq
  exact List.getElem?_append_left (h.lt_length hq)

theorem take (h : Picks published base positions items) (n : Nat) :
    Picks published base (positions.take n) (items.take n) := by
  refine ⟨h.increasing.sublist (List.take_sublist n positions), ?_, ?_⟩
  · rw [List.map_take, List.map_take, h.values]
  · intro q hq
    exact h.since q (List.mem_of_mem_take hq)

theorem push (h : Picks published base positions items) (ha : published[q]? = some a)
    (hlt : ∀ p ∈ positions, p < q) (hb : base ≤ q + 1) :
    Picks published base (positions ++ [q]) (items ++ [a]) := by
  refine ⟨?_, by simp [h.values, ha], ?_⟩
  · rw [List.pairwise_append]
    refine ⟨h.increasing, List.pairwise_singleton _ _, ?_⟩
    intro p hp q' hq'
    rw [List.mem_singleton.mp hq']
    exact hlt p hp
  · intro p hp
    rcases List.mem_append.mp hp with hp | hp
    · exact h.since p hp
    · rw [List.mem_singleton.mp hp]
      exact hb

end Picks

/-- What a reader has met that has seen the first `seen` values. -/
structure Met (published : List α) (base seen : Nat) (items : List α) : Prop where
  le : seen ≤ published.length
  picks : ∃ positions, Picks published base positions items ∧ ∀ q ∈ positions, q < seen
  last : items.getLast? = (published.take seen).getLast?

namespace Met

variable {published later given held items : List α} {base seen : Nat} {a : α}

theorem nil (published : List α) (base : Nat) : Met published base 0 [] :=
  ⟨Nat.zero_le _, ⟨[], .nil _ _, nofun⟩, by simp⟩

theorem publish (h : Met published base seen items) (hl : published <+: later) :
    Met later base seen items := by
  obtain ⟨positions, hpicks, hlt⟩ := h.picks
  refine ⟨Nat.le_trans h.le hl.length_le, ⟨positions, hpicks.publish hl, hlt⟩, ?_⟩
  obtain ⟨rest, rfl⟩ := hl
  rw [h.last, List.take_append_of_le_length h.le]

/-- The latest value replaces what is held. -/
theorem fresh (h : Met published base seen (given ++ held)) (hb : base ≤ published.length)
    (hs : seen < published.length) (ha : published.getLast? = some a) :
    Met published base published.length (given ++ [a]) := by
  obtain ⟨positions, hpicks, hlt⟩ := h.picks
  have hgiven : Picks published base (positions.take given.length) given := by
    simpa using hpicks.take given.length
  have hlast : published[published.length - 1]? = some a := by
    rw [← List.getLast?_eq_getElem?]
    exact ha
  have hbefore : ∀ q ∈ positions.take given.length, q < published.length - 1 := by
    intro q hq
    have hseen := hlt q (List.mem_of_mem_take hq)
    omega
  refine ⟨Nat.le_refl _, ⟨_, hgiven.push hlast hbefore (by omega), ?_⟩, by simp [ha]⟩
  intro q hq
  rcases List.mem_append.mp hq with hq | hq
  · have hq := hbefore q hq
    omega
  · rw [List.mem_singleton.mp hq]
    omega

/-- A reader that has seen all there is has met the last value. -/
theorem getLast? (h : Met published base published.length items) :
    items.getLast? = published.getLast? := by
  rw [h.last, List.take_length]

end Met

theorem Latest.absorb_finished (l : Latest α) (arrivals : List α) :
    (l.absorb arrivals true).finished = true := by
  unfold absorb
  split
  · assumption
  · rfl

namespace Updates

/-- The value that waits for its slot. -/
def held? (u : Updates α) : Option α := u.thinning.bind Latest.held

/-- It has noticed that no other value will be published. -/
def finished (u : Updates α) : Bool := u.thinning.any Latest.finished

/-- A reader that is asked looks, and holds what it meets if there is a limit to its rate. -/
def takeIn (u : Updates α) (published : List α) (gone : Bool) : Updates α :=
  match u.thinning with
  | none => u
  | some l => { (u.look published).2 with
      thinning := some (l.absorb (u.look published).1.toList gone) }

/-- What a reader that is asked answers, and what it is then. -/
inductive Polled (u : Updates α) (now : Nat) (published : List α) (gone : Bool) :
    Poll α → Updates α → Prop where
  | fresh {a : α} (hu : u.thinning = none) (hs : u.seen < published.length)
      (ha : published.getLast? = some a) :
      Polled u now published gone (.item a) ⟨published.length, none⟩
  | idle (hu : u.thinning = none) (hs : published.length ≤ u.seen) (hg : gone = false) :
      Polled u now published gone .pending u
  | ended (hu : u.thinning = none) (hs : published.length ≤ u.seen) (hg : gone = true) :
      Polled u now published gone .ended u
  | thinned {l l' : Latest α} {answer : Poll α} (hl : (u.takeIn published gone).thinning = some l)
      (h : Latest.Emits l now answer l') :
      Polled u now published gone answer { u.takeIn published gone with thinning := some l' }

variable {u : Updates α} {now base : Nat} {published given : List α} {gone : Bool} {l : Latest α}

theorem look_of_lt {a : α} (hs : u.seen < published.length) (ha : published.getLast? = some a) :
    u.look published = (some a, { u with seen := published.length }) := by
  rw [look, if_pos hs, ha]

theorem look_of_le (hs : published.length ≤ u.seen) : u.look published = (none, u) := by
  rw [look, if_neg (Nat.not_lt_of_le hs)]

theorem exists_latest (hs : u.seen < published.length) : ∃ a, published.getLast? = some a := by
  cases hp : published.getLast? with
  | none => simp [List.getLast?_eq_none_iff.mp hp] at hs
  | some a => exact ⟨a, rfl⟩

theorem takeIn_of_some (hu : u.thinning = some l) (published : List α) (gone : Bool) :
    u.takeIn published gone = { (u.look published).2 with
      thinning := some (l.absorb (u.look published).1.toList gone) } := by
  simp only [takeIn, hu]

theorem exists_of_takeIn (hl : (u.takeIn published gone).thinning = some l) :
    ∃ l₀, u.thinning = some l₀ ∧ l = l₀.absorb (u.look published).1.toList gone := by
  cases hu : u.thinning with
  | none => simp [takeIn, hu] at hl
  | some l₀ =>
    rw [takeIn_of_some hu] at hl
    exact ⟨l₀, rfl, (Option.some.inj hl).symm⟩

theorem polled (u : Updates α) (now : Nat) (published : List α) (gone : Bool) :
    Polled u now published gone (u.poll now published gone).1 (u.poll now published gone).2 := by
  cases hu : u.thinning with
  | none =>
    by_cases hs : u.seen < published.length
    · obtain ⟨a, ha⟩ := exists_latest hs
      simpa only [poll, look_of_lt hs ha, hu] using Polled.fresh hu hs ha
    · have hle : published.length ≤ u.seen := Nat.le_of_not_lt hs
      cases hg : gone with
      | false => simpa [poll, look_of_le hle, hu, hg] using Polled.idle hu hle rfl
      | true => simpa [poll, look_of_le hle, hu, hg] using Polled.ended hu hle rfl
  | some l =>
    have hlook : (u.look published).2.thinning = some l := by
      unfold look
      split <;> exact hu
    have hemits := (l.absorb (u.look published).1.toList gone).emits now
    have hl : (u.takeIn published gone).thinning =
        some (l.absorb (u.look published).1.toList gone) := by rw [takeIn_of_some hu]
    have hpolled := Polled.thinned hl hemits
    rw [takeIn_of_some hu] at hpolled
    simpa only [poll, hlook, Latest.poll] using hpolled

/-- A reader that has met all there is, holds nothing and will hear of the end. -/
structure Spent (u : Updates α) (published : List α) : Prop where
  seen : published.length ≤ u.seen
  held : u.held? = none
  finished : u.thinning = none ∨ u.finished = true

namespace Spent

theorem takeIn_eq (h : u.Spent published) (gone : Bool) : u.takeIn published gone = u := by
  cases hu : u.thinning with
  | none => simp only [takeIn, hu]
  | some l =>
    have hf : l.finished = true := by simpa [hu, Updates.finished] using h.finished
    rw [takeIn_of_some hu, look_of_le h.seen, Latest.absorb, if_pos hf, ← hu]

theorem poll (h : u.Spent published) (now : Nat) (gone : Bool) :
    (u.poll now published gone).2 = u ∧ (u.poll now published gone).1.item? = none ∧
      (gone = true → (u.poll now published gone).1.isEnd = true) := by
  have hpolled := u.polled now published gone
  generalize (u.poll now published gone).1 = answer at hpolled ⊢
  generalize (u.poll now published gone).2 = u' at hpolled ⊢
  cases hpolled with
  | fresh _ hs => exact absurd hs (Nat.not_lt_of_le h.seen)
  | idle _ _ hg => exact ⟨rfl, rfl, fun hg' => by simp [hg] at hg'⟩
  | ended => exact ⟨rfl, rfl, fun _ => rfl⟩
  | @thinned l _ _ hl hemits =>
    rw [h.takeIn_eq] at hl ⊢
    have hf : l.finished = true := by simpa [hl, Updates.finished] using h.finished
    have hh : l.held = none := by simpa [hl, held?] using h.held
    cases hemits with
    | closed => exact ⟨by rw [← hl], rfl, fun _ => rfl⟩
    | idle _ hf' | wait _ hf' | inSlot _ hf' => simp [hf] at hf'
    | flush hh' => simp [hh] at hh'

end Spent

end Updates

/-- A reader with what it was given, oldest first. -/
structure Reading (α : Type) where
  updates : Updates α
  given : List α
  ended : Bool

namespace Reading

def start (u : Updates α) : Reading α := ⟨u, [], false⟩

def poll (r : Reading α) (now : Nat) (published : List α) (gone : Bool) : Reading α :=
  let (answer, updates) := r.updates.poll now published gone
  ⟨updates, r.given ++ answer.item?.toList, r.ended || answer.isEnd⟩

/-- A look of a reader that goes on looking before it answers. -/
def peek (r : Reading α) (published : List α) : Reading α :=
  { r with updates := r.updates.takeIn published false }

/-- What holds of a reader at any time, if `base` values were there when it started. -/
structure Keeps (r : Reading α) (published : List α) (base : Nat) (closed : Prop) : Prop where
  base_le : base ≤ published.length
  met : Met published base r.updates.seen (r.given ++ r.updates.held?.toList)
  finished : r.updates.finished = true → closed ∧ published.length ≤ r.updates.seen
  ended : r.ended = true → closed ∧ r.updates.Spent published

namespace Keeps

variable {r : Reading α} {published later : List α} {base : Nat} {closed closed' : Prop}
  {gone : Bool}
  {l : Latest α}

theorem publish (h : r.Keeps published base closed) (hl : published <+: later)
    (ho : closed → closed' ∧ later = published) : r.Keeps later base closed' := by
  refine ⟨Nat.le_trans h.base_le hl.length_le, h.met.publish hl, ?_, ?_⟩
  · intro hf
    obtain ⟨hover, hseen⟩ := h.finished hf
    obtain ⟨hover', rfl⟩ := ho hover
    exact ⟨hover', hseen⟩
  · intro he
    obtain ⟨hover, hspent⟩ := h.ended he
    obtain ⟨hover', rfl⟩ := ho hover
    exact ⟨hover', hspent⟩

/-- Once a thinned reader has looked it has seen everything. -/
theorem takeIn (h : r.Keeps published base closed) (hu : r.updates.thinning = some l)
    (hg : gone = true → closed) :
    { r with updates := r.updates.takeIn published gone }.Keeps published base closed ∧
      published.length ≤ (r.updates.takeIn published gone).seen := by
  rw [Updates.takeIn_of_some hu]
  by_cases hs : r.updates.seen < published.length
  · obtain ⟨a, ha⟩ := Updates.exists_latest hs
    have hf : ¬ l.finished = true := by
      intro hf
      have hseen := (h.finished (by simpa [Updates.finished, hu] using hf)).2
      omega
    rw [Updates.look_of_lt hs ha, Latest.absorb, if_neg hf]
    refine ⟨⟨h.base_le, ?_, ?_, ?_⟩, Nat.le_refl _⟩
    · simpa [Updates.held?] using h.met.fresh h.base_le hs ha
    · intro hfinished
      exact ⟨hg (by simpa [Updates.finished] using hfinished), Nat.le_refl _⟩
    · intro he
      have hseen := (h.ended he).2.seen
      omega
  · have hle : published.length ≤ r.updates.seen := Nat.le_of_not_lt hs
    have hheld : (l.absorb [] gone).held = l.held := by
      unfold Latest.absorb
      split <;> simp
    have hfinished : (l.absorb [] gone).finished = true → closed := by
      intro hfinished
      by_cases hf : l.finished = true
      · exact (h.finished (by simpa [Updates.finished, hu] using hf)).1
      · rw [Latest.absorb, if_neg hf] at hfinished
        exact hg hfinished
    have htaken := Updates.takeIn_of_some hu published gone
    rw [Updates.look_of_le hle] at htaken ⊢
    refine ⟨⟨h.base_le, ?_, ?_, ?_⟩, hle⟩
    · simpa [Updates.held?, hheld, hu] using h.met
    · intro hf
      exact ⟨hfinished (by simpa [Updates.finished] using hf), hle⟩
    · intro he
      obtain ⟨hover, hspent⟩ := h.ended he
      exact ⟨hover, by rwa [← htaken, hspent.takeIn_eq]⟩

theorem peek (h : r.Keeps published base closed) :
    (r.peek published).Keeps published base closed := by
  cases hu : r.updates.thinning with
  | none =>
    rw [Reading.peek, Updates.takeIn]
    simpa only [hu] using h
  | some l =>
    have hopen : false = true → closed := nofun
    exact (h.takeIn hu hopen).1

theorem poll (h : r.Keeps published base closed) (now : Nat) (hg : gone = true → closed) :
    (r.poll now published gone).Keeps published base closed := by
  have hpolled := r.updates.polled now published gone
  unfold Reading.poll
  simp only
  generalize (r.updates.poll now published gone).1 = answer at hpolled ⊢
  generalize (r.updates.poll now published gone).2 = u at hpolled ⊢
  cases hpolled with
  | @fresh a _ hs ha =>
    refine ⟨h.base_le, ?_, nofun, ?_⟩
    · simpa [Updates.held?, Poll.item?] using h.met.fresh h.base_le hs ha
    · intro he
      have hseen := (h.ended (by simpa [Poll.isEnd] using he)).2.seen
      omega
  | idle => simpa [Poll.item?, Poll.isEnd] using h
  | ended hu hs hg' =>
    refine ⟨h.base_le, by simpa [Poll.item?] using h.met, h.finished, fun _ => ?_⟩
    exact ⟨hg hg', hs, by simp [Updates.held?, hu], .inl hu⟩
  | @thinned l l' answer hl hemits =>
    obtain ⟨l₀, hu, _⟩ := Updates.exists_of_takeIn hl
    obtain ⟨hkeeps, hseen⟩ := h.takeIn hu hg
    generalize r.updates.takeIn published gone = u₁ at hl hkeeps hseen ⊢
    have hsame : { u₁ with thinning := some l } = u₁ := by rw [← hl]
    have hheld : u₁.held? = l.held := by simp [Updates.held?, hl]
    -- An item is given out that was held: all in all the reader has met the same.
    have hgive {a : α} (pacer : Pacer) (hh : l.held = some a) :
        ({ updates := { u₁ with thinning := some { l with pacer, held := none } }
           given := r.given ++ [a]
           ended := r.ended } : Reading α).Keeps published base closed := by
      refine ⟨h.base_le, ?_, ?_, ?_⟩
      · simpa [Updates.held?, hl, hh] using hkeeps.met
      · intro hf
        exact hkeeps.finished (by simpa [Updates.finished, hl] using hf)
      · intro he
        have hnone := (hkeeps.ended he).2.held
        rw [hheld, hh] at hnone
        cases hnone
    cases hemits with
    | idle | wait => simpa [Poll.item?, Poll.isEnd, hsame] using hkeeps
    | closed hh hf =>
      have hfinished : u₁.finished = true := by simpa [Updates.finished, hl] using hf
      have hspent : u₁.Spent published := ⟨hseen, hheld.trans hh, .inr hfinished⟩
      have hover : closed := (hkeeps.finished hfinished).1
      simp only [Poll.item?, Poll.isEnd, hsame, Option.toList_none, List.append_nil, Bool.or_true]
      exact ⟨h.base_le, hkeeps.met, hkeeps.finished, fun _ => ⟨hover, hspent⟩⟩
    | inSlot hh => simpa [Poll.item?, Poll.isEnd] using hgive _ hh
    | flush hh => simpa [Poll.item?, Poll.isEnd] using hgive l.pacer hh

/-- A reader that hears of the end gives out what it holds at once, slot or not. -/
theorem spent_poll (h : r.Keeps published base closed) (now : Nat) (ho : closed) :
    (r.poll now published true).updates.Spent published := by
  have hpolled := r.updates.polled now published true
  unfold Reading.poll
  simp only
  generalize (r.updates.poll now published true).1 = answer at hpolled ⊢
  generalize (r.updates.poll now published true).2 = u at hpolled ⊢
  cases hpolled with
  | fresh => exact ⟨Nat.le_refl _, rfl, .inl rfl⟩
  | idle _ _ hg => cases hg
  | ended hu hs => exact ⟨hs, by simp [Updates.held?, hu], .inl hu⟩
  | @thinned l l' answer hl hemits =>
    obtain ⟨l₀, hu, rfl⟩ := Updates.exists_of_takeIn hl
    have hgone : true = true → closed := fun _ => ho
    have hseen := (h.takeIn hu hgone).2
    have hf := l₀.absorb_finished (r.updates.look published).1.toList
    cases hemits with
    | idle _ hf' | wait _ hf' | inSlot _ hf' => simp [hf] at hf'
    | closed hh | flush hh =>
      refine ⟨hseen, ?_, .inr ?_⟩
      · simp [Updates.held?, *]
      · simpa [Updates.finished] using hf

end Keeps

end Reading

/-- A reader can start if its rate leaves time between two values. -/
theorem Updates.exists_ofRate? {rate : UpdateRate}
    (hr : ∀ d, rate.interval = some d → 0 < d.nanos) (now : Nat) (published : List α)
    (closed : Prop) : ∃ u : Updates α, ofRate? rate now = some u ∧
      (Reading.start u).Keeps published published.length closed := by
  have hkeeps {u : Updates α} (hs : u.seen = 0) (hh : u.held? = none) (hf : u.finished = false) :
      (Reading.start u).Keeps published published.length closed := by
    refine ⟨Nat.le_refl _, ?_, ?_, nofun⟩
    · simpa [Reading.start, hs, hh] using Met.nil published published.length
    · simp [Reading.start, hf]
  cases hi : rate.interval with
  | none =>
    refine ⟨unlimited, ?_, hkeeps rfl rfl rfl⟩
    simp [ofRate?, hi]
  | some d =>
    have hd : d.nanos ≠ 0 := Nat.ne_of_gt (hr d hi)
    refine ⟨⟨0, some ⟨⟨d.nanos, now⟩, none, false⟩⟩, ?_, hkeeps rfl rfl rfl⟩
    simp [ofRate?, hi, Latest.start?, Pacer.start?, hd]

end LivePlayback
