import LivePlayback.Proofs.Json.Legibility
import LivePlayback.Proofs.Metadata.Fields

/-!
# Records that are written and read again

A record that was decoded is the same after it was encoded and decoded again, whichever of its
fields it could take over, as long as its floats read back. Strings and integers always do.
-/

namespace LivePlayback.Metadata
set_option autoImplicit false

open Json Decimal Entries

variable {m : Metadata}

def floats (m : Metadata) : List Binary64 := fieldFloats m.extra

theorem readable_of_fits {n : Int} (h : fitsInt64 n = true) : (Number.int n).Readable := by
  obtain ⟨hlow, hhigh⟩ := fitsInt64_iff.mp h
  have hword : UInt64.size = 0x10000000000000000 := rfl
  exact ⟨hlow, by omega⟩

/-- The known fields are texts, but for the observers. -/
theorem forall_mem_known {p : Value → Prop} (hs : ∀ s, p (.string s))
    (ho : p (.object (m.observers.map fun e => (e.1, .int e.2)))) : ∀ e ∈ m.known, p e.2 := by
  intro e he
  unfold known at he
  rcases List.mem_append.mp he with he | he
  · rcases List.mem_append.mp he with he | he
    · simp only [List.mem_cons, List.not_mem_nil, or_false] at he
      rcases he with rfl | rfl <;> exact hs _
    · obtain ⟨t, _, rfl⟩ := List.mem_map.mp he
      exact hs t
  · split at he
    · cases he
    · rw [List.mem_singleton.mp he]
      exact ho

theorem Tidy.legible (h : m.Tidy) (room : Nat) : ∀ e ∈ m.known, e.2.Legible (room + 1) := by
  refine forall_mem_known (fun s => .string s) ?_
  refine .object (List.pairwise_map.mpr h.observers) fun e he => ?_
  obtain ⟨count, hcount, rfl⟩ := List.mem_map.mp he
  exact .number (readable_of_fits (h.counts count hcount))

/-- There are no floats in the known fields. -/
theorem Tidy.reread_known (h : m.Tidy) : rereadFields? m.known = some m.known := by
  refine rereadFields?_eq_some_iff.mpr fun e he => ?_
  have hnone : ∀ e ∈ m.known, ∀ x ∈ e.2.floats, ReadsBack x := by
    refine forall_mem_known (p := fun v => ∀ x ∈ v.floats, ReadsBack x) (fun s => nofun) ?_
    refine forall_mem_fieldFloats_iff.mpr fun e he => ?_
    obtain ⟨count, _, rfl⟩ := List.mem_map.mp he
    nofun
  exact (h.legible 0 e he).reread?_eq_iff.mpr (hnone e he)

theorem stays_of_reread? {key : String} {v w : Value} (h : v.reread? = some w) :
    stays key w = stays key v := by
  cases v with
  | number n =>
    obtain ⟨n', rfl, _⟩ := Reader.readable_of_number? h
    rfl
  | array items =>
    obtain ⟨_, _, rfl⟩ := Option.map_eq_some_iff.mp h
    rfl
  | object fields =>
    obtain ⟨_, _, rfl⟩ := Option.map_eq_some_iff.mp h
    rfl
  | null | bool | string =>
    cases h
    rfl

theorem Tidy.reread (h : m.Tidy) {extra : Fields} (he : rereadFields? m.extra = some extra) :
    Tidy { m with extra } := by
  have hkeys := keys_of_rereadFields? he
  refine ⟨sorted_of_rereadFields? h.extra he, fun e hmem => ?_, ?_, ?_, ?_, ?_, h.observers,
    h.counts⟩
  · obtain ⟨v, hv, hreread⟩ := mem_of_rereadFields? he hmem
    rw [stays_of_reread? hreread]
    exact h.stays _ hv
  · simpa only [hkeys] using h.id
  · simpa only [hkeys] using h.name
  · simpa only [hkeys] using h.capturedAt
  · simpa only [hkeys] using h.kept

theorem decode_toUTF8 (text : String) : decode text.toUTF8 = match Value.ofText? text with
    | some (.object fields) => .ok (ofFields fields)
    | some _ => .error (fault "not an object")
    | none => .error (fault "not a JSON document") := by
  have htext : Text.decode text.toUTF8 = .ok text := Text.decode_eq_ok_iff.mpr rfl
  unfold decode
  split
  · rename_i fault hfault
    cases htext.symm.trans hfault
  · rename_i read hread
    cases htext.symm.trans hread
    rfl

/-- What becomes of a record that is encoded and decoded: the extra entries are read again. -/
theorem Tidy.decode_encode (h : m.Tidy) (hl : ∀ e ∈ m.extra, e.2.Legible (maxDepth - 1)) :
    decode m.encode.toUTF8 = match rereadFields? m.extra with
      | some extra => .ok { m with extra }
      | none => .error (fault "not a JSON document") := by
  have hlegible : ∀ e ∈ m.toFields, e.2.Legible (maxDepth - 1) := by
    intro e he
    rcases List.mem_append.mp he with he | he
    · exact h.legible _ e he
    · exact hl e he
  have hvalue : Value.ofText? m.encode =
      (rereadFields? m.extra).map fun extra => .object (collect (m.known ++ extra)) := by
    rw [encode, Value.ofText?_object (by decide) hlegible, toFields_eq, rereadFields?_append,
      h.reread_known]
    cases rereadFields? m.extra <;> rfl
  rw [decode_toUTF8, hvalue]
  cases hextra : rereadFields? m.extra with
  | none => rfl
  | some extra =>
    have hagain := (h.reread hextra).ofFields_collect
    exact congrArg Except.ok hagain

theorem tidy_of_decode {payload : ByteArray} (h : decode payload = .ok m) :
    m.Tidy ∧ ∀ e ∈ m.extra, e.2.Legible (maxDepth - 1) := by
  unfold decode at h
  split at h
  · cases h
  · rename_i text _
    split at h
    · rename_i fields hfields
      cases h
      obtain ⟨hs, hl⟩ := (Value.legible_of_ofText? hfields).fields
      refine ⟨tidy_ofFields hs fun entries hentries => ?_, fun e he => ?_⟩
      · exact (hl _ (mem_of_find? hentries)).fields.1
      · rw [ofFields_eq hs] at he
        exact hl e (List.mem_filter.mp he).1
    · cases h
    · cases h

/-- A record that can be written and read as often as one likes, if the floats in it can. -/
structure Reencodes (m : Metadata) : Prop where
  sorted : Sorted m.extra
  stable : (∀ x ∈ m.floats, ReadsBack x) → decode m.encode.toUTF8 = .ok m
  same : (∀ x ∈ m.floats, ReadsBack x) →
    ∀ m', decode m.encode.toUTF8 = .ok m' → m'.encode = m.encode
  /-- A float that does not read back is not preserved. -/
  only : decode m.encode.toUTF8 = .ok m → ∀ x ∈ m.floats, ReadsBack x

theorem decoded_record_reencodes {payload : ByteArray} (h : decode payload = .ok m) :
    m.Reencodes := by
  obtain ⟨htidy, hl⟩ := tidy_of_decode h
  have hagain := htidy.decode_encode hl
  -- The known fields always come back, so all depends on how the extra entries read.
  have hback : rereadFields? m.extra = some m.extra ↔ ∀ x ∈ m.floats, ReadsBack x := by
    rw [rereadFields?_eq_some_iff, floats, forall_mem_fieldFloats_iff]
    exact forall₂_congr fun e he => (hl e he).reread?_eq_iff
  have hstable (hx : ∀ x ∈ m.floats, ReadsBack x) : decode m.encode.toUTF8 = .ok m := by
    rw [hagain, hback.mpr hx]
  refine ⟨htidy.extra, hstable, fun hx m' hm' => ?_, fun heq => ?_⟩
  · rw [hstable hx] at hm'
    cases hm'
    rfl
  · refine hback.mp ?_
    rw [hagain] at heq
    cases hextra : rereadFields? m.extra with
    | none =>
      rw [hextra] at heq
      cases heq
    | some extra =>
      rw [hextra] at heq
      have hsame := congrArg Metadata.extra (Except.ok.inj heq)
      rw [← hsame]

/-- A record in which three fields could not take over what they were given. -/
theorem decoded_record_reencodes_of_leftovers :
    let payload := ("\x7b\"id\":[1],\"name\":true,\"at\":7," ++
      "\"observers\":\x7b\"live\":2,\"bad\":0.5\x7d,\"fps\":25.5\x7d").toUTF8
    let m : Metadata := ⟨"", "true", none, [("live", 2)], [("at", .int 7),
      ("fps", .number (.float ⟨false, 7177611906121728, -48⟩)), ("id", .array [.int 1])]⟩
    decode payload = .ok m ∧ (∀ x ∈ m.floats, ReadsBack x) ∧ m.floats ≠ [] ∧
      decode m.encode.toUTF8 = .ok m := by
  intro payload m
  have hm : decode payload = .ok m := by
    rw [decode_toUTF8]
    decide +kernel
  have hfloats : ∀ x ∈ m.floats, ReadsBack x := by decide +kernel
  exact ⟨hm, hfloats, by decide, (decoded_record_reencodes hm).stable hfloats⟩

/-- Not every float that is read reads back. -/
example : ¬ ReadsBack ⟨false, 8285044871162741, -26⟩ := by decide +kernel

end LivePlayback.Metadata
