import LivePlayback.Proofs.Json.Reading

/-!
# What a reader comes to

Whatever a reader makes of a text is legible: its integers fit 64 bits, its objects are sorted and
it is nested no deeper than a reader goes. Such a value reads back if its floats do.
-/

namespace LivePlayback.Json
set_option autoImplicit false

open Decimal

/-! ## Readers -/

/-- The values of an open container may be in a container that leaves so much room. -/
def Open.Legible (room : Nat) : Open → Prop
  | .array items => ∀ v ∈ items, v.Legible room
  | .object fields | .entry fields _ => Entries.Sorted fields ∧ ∀ e ∈ fields, e.2.Legible room

def Expected.Legible (room : Nat) : Expected → Prop
  | .next v | .word _ v => v.Legible room
  | _ => True

/-- Each container leaves one less for those in it. -/
inductive Nested : List Open → Prop where
  | nil : Nested []
  | cons {o : Open} {stack : List Open} (hl : stack.length < maxDepth)
      (ho : o.Legible (maxDepth - (stack.length + 1))) (hs : Nested stack) : Nested (o :: stack)

structure Reader.Legible (r : Reader) : Prop where
  nested : Nested r.stack
  expected : r.expected.Legible (maxDepth - r.stack.length)

namespace Reader.Legible

variable {r r' : Reader} {c : Char} {stack : List Open} {room : Nat}

theorem opened {o : Open} {e : Expected} (h : r.Legible) (hr : r.opened o e = some r')
    (ho : o.Legible (maxDepth - (r.stack.length + 1))) (he : ∀ room, e.Legible room) :
    r'.Legible := by
  unfold Reader.opened at hr
  split at hr
  · rename_i hl
    cases hr
    exact ⟨.cons hl ho h.nested, he _⟩
  · cases hr

theorem feedValue (h : r.Legible) (hr : r.feedValue c = some r') : r'.Legible := by
  unfold Reader.feedValue at hr
  split at hr
  · exact h.opened hr (fun v hv => by cases hv) fun _ => trivial
  · exact h.opened hr ⟨.nil, fun e he => by cases he⟩ fun _ => trivial
  · cases hr
    exact ⟨h.nested, trivial⟩
  · cases hr
    exact ⟨h.nested, .bool true⟩
  · cases hr
    exact ⟨h.nested, .bool false⟩
  · cases hr
    exact ⟨h.nested, .null⟩
  · split at hr
    · cases hr
      exact ⟨h.nested, trivial⟩
    · split at hr
      · cases hr
        exact h
      · cases hr

theorem closeString {isKey : Bool} {written : List Char} (h : Nested r.stack)
    (hr : r.closeString isKey written = some r') : r'.Legible := by
  obtain ⟨stack, e⟩ := r
  unfold Reader.closeString at hr
  simp only at hr h
  split at hr
  · split at hr
    · cases hr
      cases h with
      | cons hl ho hs => exact ⟨.cons hl ho hs, trivial⟩
    · cases hr
  · cases hr
    exact ⟨h, .string _⟩

theorem close (hl : stack.length < maxDepth) :
    maxDepth - stack.length = maxDepth - (stack.length + 1) + 1 := by
  omega

theorem feedNext {v : Value} (hr : r.feedNext v c = some r') (h : Nested r.stack)
    (hv : v.Legible (maxDepth - r.stack.length)) : r'.Legible := by
  obtain ⟨stack, e⟩ := r
  unfold Reader.feedNext at hr
  simp only at hr h hv
  split at hr
  · cases hr
    exact ⟨h, hv⟩
  · split at hr
    · rename_i items rest
      cases h with
      | cons hl ho hs =>
        have hitems : ∀ w ∈ v :: items, w.Legible (maxDepth - (rest.length + 1)) := by
          intro w hw
          rcases List.mem_cons.mp hw with rfl | hw
          · exact hv
          · exact ho w hw
        split at hr
        · cases hr
          exact ⟨.cons hl hitems hs, trivial⟩
        · split at hr
          · cases hr
            refine ⟨hs, ?_⟩
            rw [Expected.Legible, close hl]
            exact .array fun w hw => hitems w (List.mem_reverse.mp hw)
          · cases hr
    · rename_i fields key rest
      cases h with
      | cons hl ho hs =>
        have hsorted : Entries.Sorted (Entries.insert key v fields) := ho.1.insert
        have hfields : ∀ e ∈ Entries.insert key v fields,
            e.2.Legible (maxDepth - (rest.length + 1)) := by
          intro e he
          rcases Entries.mem_insert he with rfl | he
          · exact hv
          · exact ho.2 e he
        split at hr
        · cases hr
          exact ⟨.cons hl ⟨hsorted, hfields⟩ hs, trivial⟩
        · split at hr
          · cases hr
            refine ⟨hs, ?_⟩
            rw [Expected.Legible, close hl]
            exact .object hsorted hfields
          · cases hr
    · cases hr

theorem feed (h : r.Legible) (hr : r.feed c = some r') : r'.Legible := by
  obtain ⟨stack, e⟩ := r
  obtain ⟨hnested, he⟩ := h
  unfold Reader.feed at hr
  simp only at hr hnested he
  -- One case for each thing that may be expected. What is in a container is known to be legible
  -- when the container is closed, since that was kept up with each of its values.
  split at hr
  · refine feedValue ?_ hr
    exact ⟨hnested, trivial⟩
  · split at hr
    · split at hr
      · cases hr
        cases hnested with
        | cons hl ho hs =>
          refine ⟨hs, ?_⟩
          rw [Expected.Legible, close hl]
          exact .array ho
      · cases hr
    · refine feedValue ?_ hr
      exact ⟨hnested, trivial⟩
  · split at hr
    · split at hr
      · cases hr
        cases hnested with
        | cons hl ho hs =>
          refine ⟨hs, ?_⟩
          rw [Expected.Legible, close hl]
          exact .object ho.1 ho.2
      · cases hr
    · split at hr
      · cases hr
        exact ⟨hnested, trivial⟩
      · split at hr <;> cases hr
        exact ⟨hnested, trivial⟩
  · split at hr
    · cases hr
      exact ⟨hnested, trivial⟩
    · split at hr <;> cases hr
      exact ⟨hnested, trivial⟩
  · split at hr
    · cases hr
      exact ⟨hnested, trivial⟩
    · split at hr <;> cases hr
      exact ⟨hnested, trivial⟩
  · exact feedNext hr hnested he
  · exact feedNext hr hnested he
  · split at hr <;> cases hr
    refine ⟨hnested, ?_⟩
    split <;> exact he
  · split at hr
    · cases hr
      exact ⟨hnested, trivial⟩
    · obtain ⟨v, hv, hr⟩ := Option.bind_eq_some_iff.mp hr
      obtain ⟨n, rfl, hn⟩ := readable_of_number? hv
      exact feedNext hr hnested (.number hn)
  · split at hr
    · split at hr
      · exact closeString hnested hr
      · obtain ⟨_, _, rfl⟩ := Option.map_eq_some_iff.mp hr
        exact ⟨hnested, trivial⟩
    · obtain ⟨_, _, rfl⟩ := Option.map_eq_some_iff.mp hr
      exact ⟨hnested, trivial⟩

theorem feedAll {cs : List Char} (h : r.Legible) (hr : r.feedAll cs = some r') : r'.Legible := by
  induction cs generalizing r with
  | nil =>
    cases hr
    exact h
  | cons c cs ih =>
    obtain ⟨r₁, hfirst, hrest⟩ := Option.bind_eq_some_iff.mp hr
    exact ih (h.feed hfirst) hrest

end Reader.Legible

theorem Value.legible_of_ofText? {text : String} {v : Value} (h : ofText? text = some v) :
    v.Legible maxDepth := by
  obtain ⟨r, hr, hv⟩ := Option.bind_eq_some_iff.mp h
  have hstart : Reader.start.Legible := ⟨.nil, trivial⟩
  obtain ⟨hnested, he⟩ := hstart.feedAll hr
  obtain ⟨stack, e⟩ := r
  unfold Reader.finish? at hv
  split at hv
  · rename_i hstack hexpected
    cases hv
    simp only at hstack hexpected
    subst hstack hexpected
    exact he
  · obtain ⟨n, rfl, hn⟩ := Reader.readable_of_number? hv
    exact .number hn
  · cases hv

theorem Value.Legible.fields {room : Nat} {fields : Fields} (h : Legible room (.object fields)) :
    Entries.Sorted fields ∧ ∀ e ∈ fields, e.2.Legible (room - 1) := by
  cases h with
  | object hs h => exact ⟨hs, h⟩

/-! ## Values that read back -/

mutual

def Value.floats : Value → List Binary64
  | .null | .bool _ | .number (.int _) | .string _ => []
  | .number (.float x) => [x]
  | .array items => itemFloats items
  | .object fields => fieldFloats fields

def itemFloats : List Value → List Binary64
  | [] => []
  | v :: items => v.floats ++ itemFloats items

def fieldFloats : Fields → List Binary64
  | [] => []
  | (_, v) :: fields => v.floats ++ fieldFloats fields

end

/-- The text of the float is read as the same float. -/
def ReadsBack (x : Binary64) : Prop :=
  Value.ofText? (Value.number (.float x)).text = some (.number (.float x))

instance (x : Binary64) : Decidable (ReadsBack x) := inferInstanceAs (Decidable (_ = _))

section

variable {items : List Value} {fields fields' : Fields}

theorem forall_mem_itemFloats_iff {p : Binary64 → Prop} :
    (∀ x ∈ itemFloats items, p x) ↔ ∀ v ∈ items, ∀ x ∈ v.floats, p x := by
  induction items with
  | nil => simp [itemFloats]
  | cons v items ih =>
    rw [itemFloats, List.forall_mem_append, List.forall_mem_cons, ih]

theorem forall_mem_fieldFloats_iff {p : Binary64 → Prop} :
    (∀ x ∈ fieldFloats fields, p x) ↔ ∀ e ∈ fields, ∀ x ∈ e.2.floats, p x := by
  induction fields with
  | nil => simp [fieldFloats]
  | cons e fields ih =>
    rw [fieldFloats, List.forall_mem_append, List.forall_mem_cons, ih]

theorem rereadItems?_eq_some_iff :
    rereadItems? items = some items ↔ ∀ v ∈ items, v.reread? = some v := by
  induction items with
  | nil => simp [rereadItems?]
  | cons v items ih => simp [rereadItems?, Option.bind_eq_some_iff, ih]

theorem rereadFields?_eq_some_iff :
    rereadFields? fields = some fields ↔ ∀ e ∈ fields, e.2.reread? = some e.2 := by
  induction fields with
  | nil => simp [rereadFields?]
  | cons e fields ih =>
    obtain ⟨key, v⟩ := e
    simp [rereadFields?, Option.bind_eq_some_iff, ih]

theorem keys_of_rereadFields? (h : rereadFields? fields = some fields') :
    fields'.map Prod.fst = fields.map Prod.fst := by
  induction fields generalizing fields' with
  | nil =>
    cases h
    rfl
  | cons e fields ih =>
    obtain ⟨w, _, h⟩ := Option.bind_eq_some_iff.mp h
    obtain ⟨rest, hrest, rfl⟩ := Option.map_eq_some_iff.mp h
    rw [List.map_cons, List.map_cons, ih hrest]

theorem mem_of_rereadFields? {e : String × Value} (h : rereadFields? fields = some fields')
    (he : e ∈ fields') : ∃ v, (e.1, v) ∈ fields ∧ v.reread? = some e.2 := by
  induction fields generalizing fields' with
  | nil =>
    cases h
    cases he
  | cons first fields ih =>
    obtain ⟨w, hw, h⟩ := Option.bind_eq_some_iff.mp h
    obtain ⟨rest, hrest, rfl⟩ := Option.map_eq_some_iff.mp h
    rcases List.mem_cons.mp he with rfl | he
    · exact ⟨first.2, List.mem_cons_self, hw⟩
    · obtain ⟨v, hv, hreread⟩ := ih hrest he
      exact ⟨v, List.mem_cons_of_mem _ hv, hreread⟩

theorem rereadFields?_append : rereadFields? (fields ++ fields') =
    (rereadFields? fields).bind fun ws => (rereadFields? fields').map (ws ++ ·) := by
  induction fields with
  | nil => cases h : rereadFields? fields' <;> simp [rereadFields?, h]
  | cons e fields ih =>
    rw [List.cons_append, rereadFields?, rereadFields?, ih, Option.bind_assoc]
    refine Option.bind_congr fun w _ => ?_
    rw [Option.map_bind, Option.bind_map]
    refine Option.bind_congr fun ws _ => ?_
    exact Option.map_map ..

theorem sorted_of_rereadFields? (hs : Entries.Sorted fields)
    (h : rereadFields? fields = some fields') : Entries.Sorted fields' := by
  have hkeys := List.pairwise_map.mpr hs
  rw [← keys_of_rereadFields? h] at hkeys
  exact List.pairwise_map.mp hkeys

end

theorem Value.reread?_array_eq_iff {items : List Value} :
    (Value.array items).reread? = some (.array items) ↔ ∀ v ∈ items, v.reread? = some v := by
  rw [← rereadItems?_eq_some_iff]
  simp [reread?]

/-- Fields that are sorted are collected as they stand. -/
theorem Value.reread?_object_eq_iff {fields : Fields} (hs : Entries.Sorted fields) :
    (Value.object fields).reread? = some (.object fields) ↔
      ∀ e ∈ fields, e.2.reread? = some e.2 := by
  rw [← rereadFields?_eq_some_iff, reread?, Option.map_eq_some_iff]
  constructor
  · rintro ⟨fields', hreread, heq⟩
    rw [(sorted_of_rereadFields? hs hreread).collect_eq] at heq
    cases heq
    exact hreread
  · intro hreread
    exact ⟨fields, hreread, by rw [hs.collect_eq]⟩

/-- A value reads back exactly if all its floats do. -/
theorem Value.Legible.reread?_eq_iff {room : Nat} {v : Value} (h : v.Legible room) :
    v.reread? = some v ↔ ∀ x ∈ v.floats, ReadsBack x := by
  induction h with
  | null | bool | string => simp [reread?, floats]
  | @number _ n hn =>
    cases n with
    | int n => simpa [reread?, floats, Number.chars] using Reader.number?_intChars hn
    | float x => simp [reread?, floats, ReadsBack, ofText?_number]
  | array _ ih =>
    rw [reread?_array_eq_iff, floats, forall_mem_itemFloats_iff]
    exact forall₂_congr ih
  | object hs _ ih =>
    rw [reread?_object_eq_iff hs, floats, forall_mem_fieldFloats_iff]
    exact forall₂_congr ih

end LivePlayback.Json
