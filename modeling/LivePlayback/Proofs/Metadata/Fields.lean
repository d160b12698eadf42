import LivePlayback.Metadata
import LivePlayback.Proofs.Entries

/-!
# The fields of a record

Each known field takes over a value that fits it and leaves any other one where it is. A record that
was made of fields is tidy, and a tidy record is what its own fields make again, although the
record may repeat a key when it is written.
-/

namespace LivePlayback.Metadata
set_option autoImplicit false

open Json Entries

/-- Whether a record keeps an entry among the extra ones. -/
def stays (key : String) : Value → Bool
  | .null => key != "id" && key != "name" && key != "at" && key != "observers"
  | .bool _ | .number _ => key != "id" && key != "name"
  | .string _ => key != "id" && key != "name" && key != "at"
  | .array _ => true
  | .object _ => key != "observers"

def textOf : Option Value → String
  | some (.string s) => s
  | some (.bool b) => (Value.bool b).text
  | some (.number n) => (Value.number n).text
  | _ => ""

def timeOf : Option Value → Option String
  | some (.string s) => some s
  | _ => none

def countsOf : Option Value → List (String × Int)
  | some (.object entries) => counts entries
  | _ => []

/-- The entries that one field leaves. -/
def leave (key : String) (fields : Fields) : Fields :=
  fields.filter fun e => e.1 != key || stays key e.2

section

variable {key other : String} {fields : Fields}

theorem leave_eq (hu : Distinct fields) : leave key fields =
    if (find? key fields).any (stays key) then fields else erase key fields := by
  cases hf : find? key fields with
  | none => exact hu.filter_eq_erase (by simp [hf])
  | some v =>
    have hall {b : Bool} (h : stays key v = b) :
        ∀ w, find? key fields = some w → stays key w = b := by
      intro w hw
      cases hf.symm.trans hw
      exact h
    rw [Option.any_some]
    cases hv : stays key v with
    | true => exact hu.filter_eq_self (hall hv)
    | false => exact hu.filter_eq_erase (hall hv)

theorem takeText_eq (hu : Distinct fields) (hk : key = "id" ∨ key = "name") :
    takeText key fields = (textOf (find? key fields), leave key fields) := by
  rw [leave_eq hu]
  unfold takeText
  cases find? key fields with
  | none => rfl
  | some v => cases v <;> rcases hk with rfl | rfl <;> rfl

theorem takeTime_eq (hu : Distinct fields) :
    takeTime fields = (timeOf (find? "at" fields), leave "at" fields) := by
  rw [leave_eq hu]
  unfold takeTime
  cases find? "at" fields with
  | none => rfl
  | some v => cases v <;> rfl

theorem takeObservers_eq (hu : Distinct fields) :
    takeObservers fields = (countsOf (find? "observers" fields), leave "observers" fields) := by
  rw [leave_eq hu]
  unfold takeObservers
  cases find? "observers" fields with
  | none => rfl
  | some v => cases v <;> rfl

theorem find?_leave (hu : Distinct fields) (h : other ≠ key) :
    find? other (leave key fields) = find? other fields := by
  rw [leave, hu.find?_filter]
  cases find? other fields <;> simp [h]

theorem leave_sorted (hs : Sorted fields) : Sorted (leave key fields) := List.Pairwise.filter _ hs

/-- Only the four known fields take anything over. -/
theorem stays_eq (key : String) (v : Value) : stays key v =
    ((key != "observers" || stays "observers" v) && ((key != "at" || stays "at" v) &&
      ((key != "name" || stays "name" v) && (key != "id" || stays "id" v)))) := by
  cases v <;> simp only [stays] <;> grind

theorem ofFields_eq (hs : Sorted fields) : ofFields fields =
    { id := textOf (find? "id" fields)
      name := textOf (find? "name" fields)
      capturedAt := timeOf (find? "at" fields)
      observers := countsOf (find? "observers" fields)
      extra := fields.filter fun e => stays e.1 e.2 } := by
  have hid : Sorted (leave "id" fields) := leave_sorted hs
  have hname : Sorted (leave "name" (leave "id" fields)) := leave_sorted hid
  have hat : Sorted (leave "at" (leave "name" (leave "id" fields))) := leave_sorted hname
  have hextra : leave "observers" (leave "at" (leave "name" (leave "id" fields))) =
      fields.filter fun e => stays e.1 e.2 := by
    simp only [leave, List.filter_filter, ← stays_eq]
  unfold ofFields
  simp only [takeText_eq hs.distinct (.inl rfl), takeText_eq hid.distinct (.inr rfl),
    takeTime_eq hname.distinct, takeObservers_eq hat.distinct, hextra]
  simp only [find?_leave hs.distinct, find?_leave hid.distinct, find?_leave hname.distinct, ne_eq,
    String.reduceEq, not_false_eq_true]

end

/-! ## Tidy records -/

/-- A record as it is made: where an extra entry has the key of a known field, it is one that the
field could not take over. -/
structure Tidy (m : Metadata) : Prop where
  extra : Sorted m.extra
  stays : ∀ e ∈ m.extra, stays e.1 e.2 = true
  id : "id" ∈ m.extra.map Prod.fst → m.id = ""
  name : "name" ∈ m.extra.map Prod.fst → m.name = ""
  capturedAt : "at" ∈ m.extra.map Prod.fst → m.capturedAt = none
  kept : "observers" ∈ m.extra.map Prod.fst → m.observers = []
  observers : Sorted m.observers
  counts : ∀ e ∈ m.observers, fitsInt64 e.2 = true

section

variable {key : String} {v : Value}

theorem textOf_of_stays (hk : key = "id" ∨ key = "name") (h : stays key v = true) :
    textOf (some v) = "" := by
  rcases hk with rfl | rfl <;> cases v <;> first | rfl | cases h

theorem timeOf_of_stays (h : stays "at" v = true) : timeOf (some v) = none := by
  cases v <;> first | rfl | cases h

theorem countsOf_of_stays (h : stays "observers" v = true) : countsOf (some v) = [] := by
  cases v <;> first | rfl | cases h

end

theorem counts_sorted {entries : Fields} (hs : Sorted entries) : Sorted (counts entries) := by
  refine List.Pairwise.filterMap _ (fun a b hlt c hc d hd => ?_) hs
  obtain ⟨_, _, rfl⟩ := Option.map_eq_some_iff.mp hc
  obtain ⟨_, _, rfl⟩ := Option.map_eq_some_iff.mp hd
  exact hlt

theorem fits_of_mem_counts {entries : Fields} {e : String × Int} (h : e ∈ counts entries) :
    fitsInt64 e.2 = true := by
  obtain ⟨⟨key, v⟩, _, he⟩ := List.mem_filterMap.mp h
  obtain ⟨n, hn, rfl⟩ := Option.map_eq_some_iff.mp he
  cases v with
  | number k =>
    cases k with
    | int k =>
      simp only [Value.int64?, Number.toInt64?] at hn
      split at hn
      · cases hn
        assumption
      · cases hn
    | float x => cases hn
  | _ => cases hn

/-- Counts are written as what they are read from. -/
theorem counts_map {observers : List (String × Int)}
    (h : ∀ e ∈ observers, fitsInt64 e.2 = true) :
    counts (observers.map fun e => (e.1, .int e.2)) = observers := by
  induction observers with
  | nil => rfl
  | cons e observers ih =>
    have hfirst : (Value.int e.2).int64? = some e.2 := by
      simp [Value.int64?, Value.int, Number.toInt64?, h e List.mem_cons_self]
    rw [List.map_cons, counts, List.filterMap_cons, hfirst]
    exact congrArg (e :: ·) (ih fun e he => h e (List.mem_cons_of_mem _ he))

theorem tidy_ofFields {fields : Fields} (hs : Sorted fields)
    (hnested : ∀ entries, find? "observers" fields = some (.object entries) → Sorted entries) :
    (ofFields fields).Tidy := by
  rw [ofFields_eq hs]
  have hextra (key : String) (h : key ∈ (fields.filter fun e => stays e.1 e.2).map Prod.fst) :
      ∃ v, find? key fields = some v ∧ stays key v = true := by
    obtain ⟨⟨k, v⟩, he, rfl⟩ := List.mem_map.mp h
    obtain ⟨he, hstays⟩ := List.mem_filter.mp he
    exact ⟨v, hs.distinct.find?_of_mem he, hstays⟩
  constructor
  case extra => exact List.Pairwise.filter _ hs
  case stays => exact fun e he => (List.mem_filter.mp he).2
  case id =>
    intro h
    obtain ⟨v, hv, hstays⟩ := hextra _ h
    exact hv ▸ textOf_of_stays (.inl rfl) hstays
  case name =>
    intro h
    obtain ⟨v, hv, hstays⟩ := hextra _ h
    exact hv ▸ textOf_of_stays (.inr rfl) hstays
  case capturedAt =>
    intro h
    obtain ⟨v, hv, hstays⟩ := hextra _ h
    exact hv ▸ timeOf_of_stays hstays
  case kept =>
    intro h
    obtain ⟨v, hv, hstays⟩ := hextra _ h
    exact hv ▸ countsOf_of_stays hstays
  case observers =>
    unfold countsOf
    split
    · rename_i entries hobservers
      exact counts_sorted (hnested entries hobservers)
    · exact .nil
  case counts =>
    unfold countsOf
    split
    · exact fun e he => fits_of_mem_counts he
    · nofun

/-! ## Written records -/

/-- The entries of the known fields, as they are written. -/
def known (m : Metadata) : Fields :=
  [("id", .string m.id), ("name", .string m.name)]
    ++ (m.capturedAt.toList.map fun t => ("at", .string t))
    ++ (if m.observers.isEmpty then []
        else [("observers", .object (m.observers.map fun e => (e.1, .int e.2)))])

theorem toFields_eq (m : Metadata) : m.toFields = m.known ++ m.extra := rfl

theorem known_distinct (m : Metadata) : Distinct m.known := by
  unfold Distinct known
  cases m.capturedAt <;> cases m.observers <;> simp

/-- An extra entry is written last, so it is the one that counts. -/
theorem find?_collect_toFields {m : Metadata} (hs : Sorted m.extra) (key : String) :
    find? key (collect m.toFields) = (find? key m.extra).or (find? key m.known) := by
  rw [find?_collect, toFields_eq, List.reverse_append, find?_append, hs.distinct.find?_reverse,
    m.known_distinct.find?_reverse]

theorem find?_known_observers (m : Metadata) : find? "observers" m.known =
    if m.observers.isEmpty then none
      else some (.object (m.observers.map fun e => (e.1, .int e.2))) := by
  unfold known
  cases m.capturedAt <;> split <;> simp [find?]

theorem find?_known_at (m : Metadata) : find? "at" m.known = m.capturedAt.map .string := by
  unfold known
  cases m.capturedAt <;> split <;> simp [find?]

theorem countsOf_known {m : Metadata} (h : ∀ e ∈ m.observers, fitsInt64 e.2 = true) :
    countsOf (find? "observers" m.known) = m.observers := by
  rw [find?_known_observers]
  split
  · rename_i hempty
    exact (List.isEmpty_iff.mp hempty).symm
  · exact counts_map h

theorem not_stays_of_mem_known {m : Metadata} {e : String × Value} (h : e ∈ m.known) :
    stays e.1 e.2 = false := by
  unfold known at h
  rcases List.mem_append.mp h with h | h
  · rcases List.mem_append.mp h with h | h
    · simp only [List.mem_cons, List.not_mem_nil, or_false] at h
      rcases h with rfl | rfl <;> rfl
    · obtain ⟨t, _, rfl⟩ := List.mem_map.mp h
      rfl
  · split at h
    · cases h
    · rw [List.mem_singleton.mp h]
      rfl

namespace Tidy

variable {m : Metadata} (h : m.Tidy)

include h

theorem of_find? {key : String} {v : Value} (hv : find? key m.extra = some v) :
    Metadata.stays key v = true ∧ key ∈ m.extra.map Prod.fst := by
  have hentry := mem_of_find? hv
  exact ⟨h.stays _ hentry, List.mem_map.mpr ⟨_, hentry, rfl⟩⟩

theorem filter_collect :
    (collect m.toFields).filter (fun e => Metadata.stays e.1 e.2) = m.extra := by
  -- Both sides are sorted, so it is enough to look up every key: an extra entry hides the known
  -- one with its key, and a known one that shows is one that was taken over.
  refine Sorted.ext (List.Pairwise.filter _ sorted_collect) h.extra fun key => ?_
  rw [sorted_collect.distinct.find?_filter, find?_collect_toFields h.extra]
  cases hv : find? key m.extra with
  | some v => simp [(h.of_find? hv).1]
  | none =>
    rw [Option.none_or, Option.filter_eq_none_iff]
    intro v hv
    simp [not_stays_of_mem_known (mem_of_find? hv)]

/-- What is read of a field is what was written of it, if an entry that stays reads as no more. -/
theorem read_collect {β : Type} (read : Option Value → β) {key : String} {b : β}
    (hknown : read (find? key m.known) = b)
    (hkept : key ∈ m.extra.map Prod.fst → ∀ v, Metadata.stays key v = true → read (some v) = b) :
    read (find? key (collect m.toFields)) = b := by
  rw [find?_collect_toFields h.extra]
  cases hv : find? key m.extra with
  | none => exact hknown
  | some v =>
    obtain ⟨hstays, hkey⟩ := h.of_find? hv
    exact hkept hkey v hstays

theorem textOf_id : textOf (find? "id" (collect m.toFields)) = m.id := by
  refine h.read_collect textOf rfl fun hkey v hv => ?_
  rw [textOf_of_stays (.inl rfl) hv, h.id hkey]

theorem textOf_name : textOf (find? "name" (collect m.toFields)) = m.name := by
  refine h.read_collect textOf rfl fun hkey v hv => ?_
  rw [textOf_of_stays (.inr rfl) hv, h.name hkey]

theorem timeOf_at : timeOf (find? "at" (collect m.toFields)) = m.capturedAt := by
  have hknown : timeOf (find? "at" m.known) = m.capturedAt := by
    rw [find?_known_at]
    cases m.capturedAt <;> rfl
  refine h.read_collect timeOf hknown fun hkey v hv => ?_
  rw [timeOf_of_stays hv, h.capturedAt hkey]

theorem countsOf_observers : countsOf (find? "observers" (collect m.toFields)) = m.observers := by
  refine h.read_collect countsOf (countsOf_known h.counts) fun hkey v hv => ?_
  rw [countsOf_of_stays hv, h.kept hkey]

/-- A tidy record is made again of what is written of it. -/
theorem ofFields_collect : ofFields (collect m.toFields) = m := by
  rw [ofFields_eq sorted_collect, h.textOf_id, h.textOf_name, h.timeOf_at, h.countsOf_observers,
    h.filter_collect]

end Tidy

end LivePlayback.Metadata
