import LivePlayback.Proofs.Json.Magnitudes
import LivePlayback.Proofs.Json.Recognition
import LivePlayback.Proofs.Metadata.Reencoding

/-!
# Lenient decoding

A record keeps all that an object gives it: a known field takes over the values that fit it, and
whatever it cannot take over stays among the extra entries, next to all other fields. Decoding
refuses an object only if its containers are too deep in each other or a number is too large.
-/

namespace LivePlayback.Metadata
set_option autoImplicit false

open Json Entries

/-! ## What a record keeps -/

/-- What is given for a text, what is read of it, and what stays among the extra entries. -/
inductive KeepsText : Option Value → String → Option Value → Prop where
  | missing : KeepsText none "" none
  | null : KeepsText (some .null) "" none
  | string (s : String) : KeepsText (some (.string s)) s none
  | bool (b : Bool) : KeepsText (some (.bool b)) (if b then "true" else "false") none
  | number (n : Number) : KeepsText (some (.number n)) (Value.number n).text none
  | array (items : List Value) : KeepsText (some (.array items)) "" (some (.array items))
  | object (entries : Fields) : KeepsText (some (.object entries)) "" (some (.object entries))

inductive KeepsTime : Option Value → Option String → Option Value → Prop where
  | missing : KeepsTime none none none
  | null : KeepsTime (some .null) none none
  | string (s : String) : KeepsTime (some (.string s)) (some s) none
  | other {v : Value} (hn : v ≠ .null) (hs : ∀ s, v ≠ .string s) :
      KeepsTime (some v) none (some v)

/-- Of an object the entries are counts that are integers of 64 bits. -/
inductive KeepsCounts : Option Value → List (String × Int) → Option Value → Prop where
  | missing : KeepsCounts none [] none
  | null : KeepsCounts (some .null) [] none
  | object {entries : Fields} {observers : List (String × Int)} (hs : Sorted observers)
      (h : ∀ kind n, (kind, n) ∈ observers ↔ (kind, .int n) ∈ entries ∧
        -0x8000000000000000 ≤ n ∧ n < 0x8000000000000000) :
      KeepsCounts (some (.object entries)) observers none
  | other {v : Value} (hn : v ≠ .null) (ho : ∀ entries, v ≠ .object entries) :
      KeepsCounts (some v) [] (some v)

/-- A record that has all of these fields, and nothing else. -/
structure Keeps (fields : Fields) (m : Metadata) : Prop where
  sorted : Sorted m.extra
  others : ∀ key, key ∉ ["id", "name", "at", "observers"] →
    find? key m.extra = find? key fields
  id : KeepsText (find? "id" fields) m.id (find? "id" m.extra)
  name : KeepsText (find? "name" fields) m.name (find? "name" m.extra)
  capturedAt : KeepsTime (find? "at" fields) m.capturedAt (find? "at" m.extra)
  observers : KeepsCounts (find? "observers" fields) m.observers (find? "observers" m.extra)

variable {fields : Fields} {m m' : Metadata}

theorem keepsText {key : String} (hk : key = "id" ∨ key = "name") (v : Option Value) :
    KeepsText v (textOf v) (v.filter (stays key)) := by
  cases v with
  | none => exact .missing
  | some v =>
    rcases hk with rfl | rfl <;> cases v with
    | null => exact .null
    | bool b => cases b <;> exact .bool _
    | number n => exact .number n
    | string s => exact .string s
    | array items => exact .array items
    | object entries => exact .object entries

theorem keepsTime (v : Option Value) : KeepsTime v (timeOf v) (v.filter (stays "at")) := by
  cases v with
  | none => exact .missing
  | some v =>
    cases v with
    | null => exact .null
    | string s => exact .string s
    | bool | number | array | object => exact .other nofun nofun

theorem int64?_eq_some_iff {v : Value} {n : Int} :
    v.int64? = some n ↔ v = .int n ∧ fitsInt64 n = true := by
  constructor
  · intro h
    cases v with
    | number k =>
      cases k with
      | int k =>
        simp only [Value.int64?, Number.toInt64?] at h
        split at h
        · rename_i hfits
          cases h
          exact ⟨rfl, hfits⟩
        · cases h
      | float x => cases h
    | _ => cases h
  · rintro ⟨rfl, hfits⟩
    exact if_pos hfits

theorem mem_counts_iff {entries : Fields} {kind : String} {n : Int} :
    (kind, n) ∈ counts entries ↔ (kind, .int n) ∈ entries ∧
      -0x8000000000000000 ≤ n ∧ n < 0x8000000000000000 := by
  rw [counts, List.mem_filterMap, ← fitsInt64_iff]
  constructor
  · rintro ⟨⟨key, v⟩, he, hv⟩
    obtain ⟨n, hn, heq⟩ := Option.map_eq_some_iff.mp hv
    cases heq
    obtain ⟨rfl, hfits⟩ := int64?_eq_some_iff.mp hn
    exact ⟨he, hfits⟩
  · rintro ⟨he, hfits⟩
    exact ⟨_, he, by rw [int64?_eq_some_iff.mpr ⟨rfl, hfits⟩]; rfl⟩

theorem keepsCounts {v : Option Value}
    (hv : ∀ entries, v = some (.object entries) → Sorted entries) :
    KeepsCounts v (countsOf v) (v.filter (stays "observers")) := by
  cases v with
  | none => exact .missing
  | some v =>
    cases v with
    | null => exact .null
    | object entries => exact .object (counts_sorted (hv entries rfl)) fun _ _ => mem_counts_iff
    | bool | number | string | array => exact .other nofun nofun

theorem stays_of_unknown {key : String} (hk : key ∉ ["id", "name", "at", "observers"])
    (v : Value) : stays key v = true := by
  simp only [List.mem_cons, List.not_mem_nil, or_false, not_or] at hk
  obtain ⟨hid, hname, hat, hobservers⟩ := hk
  cases v <;> simp [stays, hid, hname, hat, hobservers]

/-- A record keeps the fields that it is made of. -/
theorem keeps_ofFields (hs : Sorted fields)
    (hnested : ∀ entries, find? "observers" fields = some (.object entries) → Sorted entries) :
    Keeps fields (ofFields fields) := by
  rw [ofFields_eq hs]
  have hextra (key : String) : find? key (fields.filter fun e => stays e.1 e.2) =
      (find? key fields).filter (stays key) := hs.distinct.find?_filter _
  constructor
  case sorted => exact List.Pairwise.filter _ hs
  case others =>
    intro key hk
    rw [hextra]
    cases find? key fields with
    | none => rfl
    | some v => simp [stays_of_unknown hk v]
  case id => exact hextra _ ▸ keepsText (.inl rfl) _
  case name => exact hextra _ ▸ keepsText (.inr rfl) _
  case capturedAt => exact hextra _ ▸ keepsTime _
  case observers => exact hextra _ ▸ keepsCounts hnested

theorem KeepsText.unique {v r r' : Option Value} {s s' : String} (h : KeepsText v s r)
    (h' : KeepsText v s' r') : s = s' ∧ r = r' := by
  cases h <;> cases h' <;> exact ⟨rfl, rfl⟩

theorem KeepsTime.unique {v r r' : Option Value} {s s' : Option String} (h : KeepsTime v s r)
    (h' : KeepsTime v s' r') : s = s' ∧ r = r' := by
  cases h <;> cases h' <;> simp_all

theorem KeepsCounts.unique {v r r' : Option Value} {os os' : List (String × Int)}
    (h : KeepsCounts v os r) (h' : KeepsCounts v os' r') : os = os' ∧ r = r' := by
  cases h with
  | object hs h =>
    cases h' with
    | object hs' h' =>
      refine ⟨hs.ext hs' fun key => Option.ext fun n => ?_, rfl⟩
      rw [hs.distinct.find?_eq_some_iff, hs'.distinct.find?_eq_some_iff, h, h']
    | other _ ho => exact absurd rfl (ho _)
  | missing | null | other => cases h' <;> simp_all

/-- There is just one record that keeps some fields. -/
theorem Keeps.unique (h : Keeps fields m) (h' : Keeps fields m') : m = m' := by
  obtain ⟨hid, hid'⟩ := h.id.unique h'.id
  obtain ⟨hname, hname'⟩ := h.name.unique h'.name
  obtain ⟨hat, hat'⟩ := h.capturedAt.unique h'.capturedAt
  obtain ⟨hobservers, hobservers'⟩ := h.observers.unique h'.observers
  have hextra : m.extra = m'.extra := by
    refine h.sorted.ext h'.sorted fun key => ?_
    by_cases hk : key ∈ ["id", "name", "at", "observers"]
    · simp only [List.mem_cons, List.not_mem_nil, or_false] at hk
      rcases hk with rfl | rfl | rfl | rfl <;> assumption
    · rw [h.others key hk, h'.others key hk]
  cases m
  cases m'
  simp only at hid hname hat hobservers hextra
  subst hid hname hat hobservers hextra
  rfl

/-! ## Decoding -/

open Grammar

variable {payload : ByteArray} {t : Tree}

/-- The bytes are an object with these fields, and a reader has room for it. -/
def Carries (payload : ByteArray) (fields : Fields) : Prop :=
  ∃ entries, Describes payload (.object entries) ∧ (Tree.object entries).depth ≤ maxDepth ∧
    (Tree.object entries).value? = some (.object fields)

theorem read?_eq_some_iff {v : Value} : t.read? maxDepth = some v ↔
    t.depth ≤ maxDepth ∧ t.value? = some v := by
  simp [Tree.read?]

theorem carries_iff : Carries payload fields ↔
    ∃ text : String, text.toUTF8 = payload ∧ Value.ofText? text = some (.object fields) := by
  constructor
  · rintro ⟨entries, ⟨text, htext, hdocument⟩, hroom⟩
    exact ⟨text, htext, (Value.ofText?_of_document hdocument).trans (read?_eq_some_iff.mpr hroom)⟩
  · rintro ⟨text, htext, hread⟩
    obtain ⟨t, hdocument, hread⟩ := Value.document_of_ofText? hread
    obtain ⟨hdepth, hvalue⟩ := read?_eq_some_iff.mp hread
    cases t with
    | object entries => exact ⟨entries, ⟨text, htext, hdocument⟩, hdepth, hvalue⟩
    | _ => simp [Tree.value?] at hvalue

theorem decode_eq_ok_iff_ofFields :
    decode payload = .ok m ↔ ∃ fields, Carries payload fields ∧ m = ofFields fields := by
  simp only [carries_iff]
  constructor
  · intro h
    unfold decode at h
    split at h
    · cases h
    · rename_i text htext
      split at h
      · rename_i fields hfields
        cases h
        exact ⟨fields, ⟨text, Text.decode_eq_ok_iff.mp htext, hfields⟩, rfl⟩
      · cases h
      · cases h
  · rintro ⟨fields, ⟨text, rfl, hread⟩, rfl⟩
    rw [decode_toUTF8, hread]

/-- The fields of an object that was read are sorted, and so are those of its observers. -/
theorem Carries.keeps_iff (h : Carries payload fields) : Keeps fields m ↔ m = ofFields fields := by
  obtain ⟨text, _, hread⟩ := carries_iff.mp h
  obtain ⟨hs, hl⟩ := (Value.legible_of_ofText? hread).fields
  have hkeeps := keeps_ofFields hs fun entries hentries =>
    (hl _ (mem_of_find? hentries)).fields.1
  exact ⟨fun hm => hm.unique hkeeps, fun hm => hm ▸ hkeeps⟩

theorem Carries.exists_keeps (h : Carries payload fields) : ∃ m, Keeps fields m :=
  ⟨ofFields fields, h.keeps_iff.mpr rfl⟩

theorem decode_eq_ok_iff :
    decode payload = .ok m ↔ ∃ fields, Carries payload fields ∧ Keeps fields m := by
  rw [decode_eq_ok_iff_ofFields]
  exact exists_congr fun fields => and_congr_right fun h => h.keeps_iff.symm

theorem fault_of_decode {f : Fault} (h : decode payload = .error f) :
    ∃ details, f = .decode "metadata json" details := by
  unfold decode at h
  split at h
  · cases h
    exact ⟨_, rfl⟩
  · split at h
    · cases h
    · cases h
      exact ⟨_, rfl⟩
    · cases h
      exact ⟨_, rfl⟩

/-- Decoding fails, and says that it was about metadata. -/
def Fails (payload : ByteArray) : Prop :=
  ∃ details, decode payload = .error (.decode "metadata json" details)

theorem fails_iff : Fails payload ↔ ¬ ∃ fields, Carries payload fields := by
  constructor
  · rintro ⟨details, hf⟩ ⟨fields, hfields⟩
    cases hf.symm.trans (decode_eq_ok_iff_ofFields.mpr ⟨fields, hfields, rfl⟩)
  · intro h
    cases hd : decode payload with
    | error f =>
      obtain ⟨details, rfl⟩ := fault_of_decode hd
      exact ⟨details, hd⟩
    | ok m =>
      obtain ⟨fields, hfields, _⟩ := decode_eq_ok_iff_ofFields.mp hd
      exact absurd ⟨fields, hfields⟩ h

/-- An object carries no fields but those that its own entries make. -/
theorem Carries.of_describes {entries : List (String × Tree)} (h : Carries payload fields)
    (hd : Describes payload (.object entries)) : (Tree.object entries).depth ≤ maxDepth ∧
      (Tree.object entries).value? = some (.object fields) := by
  obtain ⟨text, htext, hdocument⟩ := hd
  obtain ⟨text', htext', hread⟩ := carries_iff.mp h
  cases String.toByteArray_inj.mp (htext.trans htext'.symm)
  exact read?_eq_some_iff.mp ((Value.ofText?_of_document hdocument).symm.trans hread)

/-- There is room for an object if none of its numbers reaches `10 ^ 308`. -/
theorem exists_carries {entries : List (String × Tree)} (hd : Describes payload (.object entries))
    (hdepth : (Tree.object entries).depth ≤ maxDepth)
    (hl : ∀ l ∈ (Tree.object entries).literals, l.magnitude < 10 ^ 308) :
    ∃ fields, Carries payload fields := by
  have ⟨_, _, hdocument⟩ := hd
  obtain ⟨v, hv⟩ := hdocument.value?_isSome hl
  obtain ⟨es, _, rfl⟩ := Option.map_eq_some_iff.mp hv
  exact ⟨_, entries, hd, hdepth, hv⟩

/-- What becomes of a payload. -/
structure DecodesLeniently (payload : ByteArray) : Prop where
  /-- A record is decoded just from the fields that it keeps. -/
  decoded : ∀ m, decode payload = .ok m ↔ ∃ fields, Carries payload fields ∧ Keeps fields m
  /-- Everything but an object that a reader has room for is refused. -/
  fails : Fails payload ↔ ¬ ∃ fields, Carries payload fields
  /-- There is room for every object, -/
  accepted : ∀ entries, Describes payload (.object entries) →
    (Tree.object entries).depth ≤ maxDepth →
    (∀ l ∈ (Tree.object entries).literals, l.magnitude < 10 ^ 308) →
    ∃ m, decode payload = .ok m
  /-- unless its containers are too deep in each other or a number is too large. -/
  refused : ∀ entries, Describes payload (.object entries) →
    (maxDepth < (Tree.object entries).depth ∨
      ∃ l ∈ (Tree.object entries).literals, 10 ^ 309 ≤ l.magnitude) → Fails payload

theorem decodes_leniently (payload : ByteArray) : DecodesLeniently payload where
  decoded := by
    intro m
    exact decode_eq_ok_iff
  fails := fails_iff
  accepted := by
    intro entries hdescribes hdepth hl
    obtain ⟨fields, hfields⟩ := exists_carries hdescribes hdepth hl
    exact ⟨_, decode_eq_ok_iff_ofFields.mpr ⟨fields, hfields, rfl⟩⟩
  refused := by
    intro entries hdescribes hlarge
    refine fails_iff.mpr fun ⟨fields, hfields⟩ => ?_
    obtain ⟨hdepth, hvalue⟩ := hfields.of_describes hdescribes
    obtain ⟨_, _, hdocument⟩ := hdescribes
    rcases hlarge with hdeep | ⟨l, hl, hlarge⟩
    · exact absurd hdepth (Nat.not_le_of_lt hdeep)
    · exact absurd (hdocument.magnitude_lt hvalue l hl) (not_lt.mpr hlarge)

end LivePlayback.Metadata
