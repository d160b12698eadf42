import LivePlayback.Frame
import LivePlayback.Proofs.Metadata.Leniency

/-!
# What frames carry

The first byte of a frame decides what the rest has to be. Text behind a codec tag and objects
behind a metadata tag are taken as they are, and a media chunk is the whole frame.
-/

namespace LivePlayback.Content
set_option autoImplicit false

open Json Text Metadata

/-- A first byte, and what stands behind it. -/
def tagged (b : UInt8) (payload : ByteArray) : ByteArray := ⟨#[b]⟩ ++ payload

variable {b : UInt8} {f payload : ByteArray} {c : Content}

theorem first_tagged : (tagged b payload)[0]? = some b := by
  have hlt : 0 < (tagged b payload).size := by
    rw [tagged, ByteArray.size_append]
    exact Nat.add_pos_left Nat.one_pos _
  have hfirst : (tagged b payload)[0] = b := ByteArray.getElem_append_left Nat.one_pos
  rw [getElem?_pos (tagged b payload) 0 hlt, hfirst]

theorem rest_tagged : (tagged b payload).extract 1 (tagged b payload).size = payload :=
  ByteArray.extract_append_eq_right rfl ByteArray.size_append

theorem eq_empty_or_tagged (f : ByteArray) : f = .empty ∨ ∃ b payload, f = tagged b payload := by
  rcases Nat.eq_zero_or_pos f.size with hsize | hsize
  · exact .inl (ByteArray.size_eq_zero_iff.mp hsize)
  · refine .inr ⟨f[0], f.extract 1 f.size, ?_⟩
    calc f
      _ = f.extract 0 f.size := ByteArray.extract_zero_size.symm
      _ = f.extract 0 1 ++ f.extract 1 f.size :=
        ByteArray.extract_eq_extract_append_extract 1 (Nat.zero_le 1) hsize
      _ = tagged f[0] (f.extract 1 f.size) := by
        rw [ByteArray.extract_add_one hsize]
        rfl

/-- What a frame with some content is made of. -/
inductive Means : ByteArray → Content → Prop where
  | media {b : UInt8} {payload : ByteArray} (hmetadata : b ≠ 0x08) (hcodec : b ≠ 0x09) :
      Means (tagged b payload) (.media (tagged b payload))
  | codecs (c : Codecs) : Means (tagged 0x09 c.text.toUTF8) (.codecs c)
  | metadata {payload : ByteArray} {fields : Fields} {m : Metadata} (h : Carries payload fields)
      (hm : Keeps fields m) : Means (tagged 0x08 payload) (.metadata m)

theorem ofFrame_metadata : ofFrame (tagged 0x08 payload) =
    (Metadata.decode payload).map .metadata := by
  unfold ofFrame FrameTag.ofFrame?
  rw [first_tagged, rest_tagged]
  rfl

theorem ofFrame_codecs : ofFrame (tagged 0x09 payload) =
    match Text.decode payload with
    | .error f => .error (.decode "codec frame" f.message)
    | .ok text => (Codecs.ofText text).map .codecs := by
  unfold ofFrame FrameTag.ofFrame?
  rw [first_tagged, rest_tagged]
  rfl

theorem ofFrame_media (hmetadata : b ≠ 0x08) (hcodec : b ≠ 0x09) :
    ofFrame (tagged b payload) = .ok (.media (tagged b payload)) := by
  have htag : FrameTag.ofByte b = .media := by
    unfold FrameTag.ofByte
    rw [if_neg hmetadata, if_neg hcodec]
  unfold ofFrame FrameTag.ofFrame?
  rw [first_tagged, Option.map_some, htag]

theorem ofFrame_metadata_eq_ok_iff : ofFrame (tagged 0x08 payload) = .ok c ↔
    ∃ m fields, Carries payload fields ∧ Keeps fields m ∧ c = .metadata m := by
  rw [ofFrame_metadata]
  cases hd : Metadata.decode payload with
  | error f =>
    refine ⟨nofun, fun ⟨m, fields, hfields, hm, _⟩ => ?_⟩
    cases hd.symm.trans (decode_eq_ok_iff.mpr ⟨fields, hfields, hm⟩)
  | ok m =>
    constructor
    · intro h
      cases h
      obtain ⟨fields, hfields, hm⟩ := decode_eq_ok_iff.mp hd
      exact ⟨m, fields, hfields, hm, rfl⟩
    · rintro ⟨m', fields, hfields, hm, rfl⟩
      cases hd.symm.trans (decode_eq_ok_iff.mpr ⟨fields, hfields, hm⟩)
      rfl

theorem ofFrame_codecs_eq_ok_iff : ofFrame (tagged 0x09 payload) = .ok c ↔
    ∃ codecs : Codecs, codecs.text.toUTF8 = payload ∧ c = .codecs codecs := by
  rw [ofFrame_codecs]
  constructor
  · intro h
    split at h
    · cases h
    · rename_i text htext
      cases hc : Codecs.ofText text with
      | error f =>
        rw [hc] at h
        cases h
      | ok codecs =>
        rw [hc] at h
        cases h
        refine ⟨codecs, ?_, rfl⟩
        rw [Codecs.ofText_eq_ok_iff.mp hc]
        exact Text.decode_eq_ok_iff.mp htext
  · rintro ⟨codecs, rfl, rfl⟩
    rw [Text.decode_eq_ok_iff.mpr rfl]
    simp only [Codecs.ofText_eq_ok_iff.mpr (rfl : codecs.text = codecs.text)]
    rfl

/-- Each frame has the content that its bytes mean, if they mean any. -/
theorem ofFrame_eq_ok_iff : ofFrame f = .ok c ↔ Means f c := by
  constructor
  · intro h
    rcases eq_empty_or_tagged f with rfl | ⟨b, payload, rfl⟩
    · cases h
    by_cases hmetadata : b = 0x08
    · subst hmetadata
      obtain ⟨m, fields, hfields, hm, rfl⟩ := ofFrame_metadata_eq_ok_iff.mp h
      exact .metadata hfields hm
    by_cases hcodec : b = 0x09
    · subst hcodec
      obtain ⟨codecs, rfl, rfl⟩ := ofFrame_codecs_eq_ok_iff.mp h
      exact .codecs codecs
    rw [ofFrame_media hmetadata hcodec] at h
    cases h
    exact .media hmetadata hcodec
  · rintro (⟨hmetadata, hcodec⟩ | codecs | ⟨hfields, hm⟩)
    · exact ofFrame_media hmetadata hcodec
    · exact ofFrame_codecs_eq_ok_iff.mpr ⟨codecs, rfl, rfl⟩
    · exact ofFrame_metadata_eq_ok_iff.mpr ⟨_, _, hfields, hm, rfl⟩

theorem fault_of_ofText {text : String} {e : Fault} (h : Codecs.ofText text = .error e) :
    e = Codecs.blankFault := by
  unfold Codecs.ofText at h
  split at h
  · cases h
  · exact (Except.error.inj h).symm

theorem fault_of_ofFrame {e : Fault} (h : ofFrame f = .error e) :
    ∃ context details, e = .decode context details := by
  rcases eq_empty_or_tagged f with rfl | ⟨b, payload, rfl⟩
  · cases h
    exact ⟨_, _, rfl⟩
  by_cases hmetadata : b = 0x08
  · subst hmetadata
    rw [ofFrame_metadata] at h
    cases hd : Metadata.decode payload with
    | error f =>
      rw [hd] at h
      cases h
      obtain ⟨details, rfl⟩ := fault_of_decode hd
      exact ⟨_, details, rfl⟩
    | ok m =>
      rw [hd] at h
      cases h
  by_cases hcodec : b = 0x09
  · subst hcodec
    rw [ofFrame_codecs] at h
    split at h
    · cases h
      exact ⟨_, _, rfl⟩
    · rename_i text _
      cases hc : Codecs.ofText text with
      | error f =>
        rw [hc] at h
        cases h
        obtain rfl := fault_of_ofText hc
        exact ⟨_, _, rfl⟩
      | ok codecs =>
        rw [hc] at h
        cases h
  rw [ofFrame_media hmetadata hcodec] at h
  cases h

/-- The frame is refused as malformed. -/
def Refused (f : ByteArray) : Prop :=
  ∃ context details, ofFrame f = .error (.decode context details)

theorem refused_iff : Refused f ↔ ∀ c, ofFrame f ≠ .ok c := by
  constructor
  · rintro ⟨context, details, hf⟩ c hc
    cases hf.symm.trans hc
  · intro h
    cases hf : ofFrame f with
    | error e =>
      obtain ⟨context, details, rfl⟩ := fault_of_ofFrame hf
      exact ⟨context, details, hf⟩
    | ok c => exact absurd hf (h c)

/-- A text announces codecs unless it is blank. -/
theorem exists_codecs_iff {text : String} :
    (∃ codecs : Codecs, codecs.text = text) ↔ ∃ c ∈ text.toList, isBlank c = false := by
  constructor
  · rintro ⟨codecs, rfl⟩
    simpa using codecs.notBlank
  · intro h
    exact ⟨⟨text, by simpa using h⟩, rfl⟩

/-- A frame that carries nothing: it has no first byte, or behind the tag for codecs there is no
text but blanks, or behind the tag for metadata no object that a reader has room for. -/
inductive Malformed : ByteArray → Prop where
  | empty : Malformed .empty
  | codecs {payload : ByteArray} (h : ∀ text : String, text.toUTF8 = payload →
      ∀ c ∈ text.toList, isBlank c = true) : Malformed (tagged 0x09 payload)
  | metadata {payload : ByteArray} (h : ¬ ∃ fields, Carries payload fields) :
      Malformed (tagged 0x08 payload)

theorem Malformed.ne_ok (h : Malformed f) : ofFrame f ≠ .ok c := by
  intro hc
  cases h with
  | empty => cases hc
  | codecs hblank =>
    obtain ⟨codecs, htext, _⟩ := ofFrame_codecs_eq_ok_iff.mp hc
    obtain ⟨d, hd, hvisible⟩ := exists_codecs_iff.mp ⟨codecs, rfl⟩
    cases hvisible.symm.trans (hblank codecs.text htext d hd)
  | metadata hnone =>
    obtain ⟨m, fields, hfields, _⟩ := ofFrame_metadata_eq_ok_iff.mp hc
    exact hnone ⟨fields, hfields⟩

theorem malformed_of_ne_ok (h : ∀ c, ofFrame f ≠ .ok c) : Malformed f := by
  rcases eq_empty_or_tagged f with rfl | ⟨b, payload, rfl⟩
  · exact .empty
  by_cases hcodec : b = 0x09
  · subst hcodec
    refine .codecs fun text htext c hc => eq_true_of_ne_false fun hvisible => ?_
    obtain ⟨codecs, rfl⟩ := exists_codecs_iff.mpr ⟨c, hc, hvisible⟩
    exact h _ (ofFrame_codecs_eq_ok_iff.mpr ⟨codecs, htext, rfl⟩)
  by_cases hmetadata : b = 0x08
  · subst hmetadata
    refine .metadata fun ⟨fields, hfields⟩ => ?_
    obtain ⟨m, hm⟩ := hfields.exists_keeps
    exact h _ (ofFrame_eq_ok_iff.mpr (.metadata hfields hm))
  exact absurd (ofFrame_media hmetadata hcodec) (h _)

theorem refused_iff_malformed : Refused f ↔ Malformed f :=
  refused_iff.trans ⟨malformed_of_ne_ok, fun h _ => h.ne_ok⟩

/-- What a frame is taken for. -/
structure FrameGrammar (f : ByteArray) : Prop where
  /-- A media chunk is the whole frame, which does not start with one of the two tags. -/
  media : ∀ chunk, ofFrame f = .ok (.media chunk) ↔
    chunk = f ∧ ∃ b payload, f = tagged b payload ∧ b ≠ 0x08 ∧ b ≠ 0x09
  /-- Codecs are announced by just their own text, -/
  codecs : ∀ c : Codecs, ofFrame f = .ok (.codecs c) ↔ f = tagged 0x09 c.text.toUTF8
  /-- and any text announces some, unless it is blank. -/
  announced : (∃ c, ofFrame f = .ok (.codecs c)) ↔
    ∃ text : String, f = tagged 0x09 text.toUTF8 ∧ ∃ c ∈ text.toList, isBlank c = false
  /-- Metadata is an object that a reader has room for. -/
  metadata : ∀ m, ofFrame f = .ok (.metadata m) ↔
    ∃ payload fields, f = tagged 0x08 payload ∧ Carries payload fields ∧ Keeps fields m
  /-- There is room if containers are not too deep in each other and numbers not too large. -/
  received : ∀ payload entries, f = tagged 0x08 payload →
    Grammar.Describes payload (.object entries) → (Tree.object entries).depth ≤ maxDepth →
    (∀ l ∈ (Tree.object entries).literals, l.magnitude < 10 ^ 308) →
    ∃ m, ofFrame f = .ok (.metadata m)
  refused : Refused f ↔ Malformed f
  codecText : ∀ payload c, f = FrameTag.codec.build payload → ofFrame f = .ok (.codecs c) →
    c.text.toUTF8 = payload
  mediaFrame : ∀ payload, f = FrameTag.media.build payload → ofFrame f = .ok (.media f)

theorem frame_grammar (f : ByteArray) : FrameGrammar f where
  media := by
    intro chunk
    rw [ofFrame_eq_ok_iff]
    constructor
    · rintro (⟨hmetadata, hcodec⟩ | _ | _)
      exact ⟨rfl, _, _, rfl, hmetadata, hcodec⟩
    · rintro ⟨rfl, b, payload, rfl, hmetadata, hcodec⟩
      exact .media hmetadata hcodec
  codecs := by
    intro c
    rw [ofFrame_eq_ok_iff]
    constructor
    · rintro (_ | _ | _)
      rfl
    · rintro rfl
      exact .codecs c
  announced := by
    constructor
    · rintro ⟨c, hc⟩
      obtain (_ | _ | _) := ofFrame_eq_ok_iff.mp hc
      exact ⟨c.text, rfl, exists_codecs_iff.mp ⟨c, rfl⟩⟩
    · rintro ⟨text, rfl, htext⟩
      obtain ⟨codecs, rfl⟩ := exists_codecs_iff.mpr htext
      exact ⟨codecs, ofFrame_eq_ok_iff.mpr (.codecs codecs)⟩
  metadata := by
    intro m
    rw [ofFrame_eq_ok_iff]
    constructor
    · rintro (_ | _ | ⟨hfields, hm⟩)
      exact ⟨_, _, rfl, hfields, hm⟩
    · rintro ⟨payload, fields, rfl, hfields, hm⟩
      exact .metadata hfields hm
  received := by
    rintro payload entries rfl hdescribes hdepth hl
    obtain ⟨fields, hfields⟩ := exists_carries hdescribes hdepth hl
    obtain ⟨m, hm⟩ := hfields.exists_keeps
    exact ⟨m, ofFrame_eq_ok_iff.mpr (.metadata hfields hm)⟩
  refused := refused_iff_malformed
  codecText := by
    rintro payload c rfl h
    obtain ⟨codecs, htext, hc⟩ := ofFrame_codecs_eq_ok_iff.mp h
    cases hc
    exact htext
  mediaFrame := by
    rintro payload rfl
    exact ofFrame_media (by decide) (by decide)

end LivePlayback.Content
