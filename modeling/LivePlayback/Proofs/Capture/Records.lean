import LivePlayback.Capture
import LivePlayback.Reception
import Mathlib.Algebra.Group.Nat.Defs
import Mathlib.Logic.Function.Iterate

/-!
# The records of a capture

What is written can be read back whatever stands behind it, and a record that is read is one that
could be written. What the beginning of a capture holds does not change when more bytes arrive,
unless it was too short to say.
-/

namespace LivePlayback
set_option autoImplicit false

def Reception.frame? : Reception → Option ByteArray
  | .frame f => some f
  | .closed | .failed _ => none

namespace Capture

/-! ## Length fields -/

theorem size_lengthField (n : Nat) : (lengthField n).size = fieldLength := rfl

theorem readLength?_of_le {bytes : ByteArray} (h : fieldLength ≤ bytes.size) :
    ∃ a b c d : UInt8, bytes.extract 0 fieldLength = ⟨#[a, b, c, d]⟩ ∧
      readLength? bytes =
        some (((a.toNat * 256 + b.toNat) * 256 + c.toNat) * 256 + d.toNat) := by
  have hbyte (i : Nat) (hi : i < fieldLength) :
      bytes[i]? = some (bytes.get i (Nat.lt_of_lt_of_le hi h)) :=
    getElem?_pos bytes i _
  refine ⟨_, _, _, _, ByteArray.extract_add_four (i := 0) h, ?_⟩
  unfold readLength?
  rw [hbyte 0 (by decide), hbyte 1 (by decide), hbyte 2 (by decide), hbyte 3 (by decide)]
  rfl

theorem readLength?_eq_none_iff {bytes : ByteArray} :
    readLength? bytes = none ↔ bytes.size < fieldLength := by
  constructor
  · intro hnone
    by_contra h
    obtain ⟨a, b, c, d, _, hsome⟩ := readLength?_of_le (Nat.le_of_not_lt h)
    cases hnone.symm.trans hsome
  · intro h
    have hlast : bytes[3]? = none := getElem?_neg bytes 3 (Nat.not_lt.mpr (Nat.le_of_lt_succ h))
    unfold readLength?
    rw [hlast]
    cases bytes[0]? <;> cases bytes[1]? <;> cases bytes[2]? <;> rfl

theorem readLength?_append {a : ByteArray} (h : fieldLength ≤ a.size) (b : ByteArray) :
    readLength? (a ++ b) = readLength? a := by
  have hbyte (i : Nat) (hi : i < fieldLength) : (a ++ b)[i]? = a[i]? := by
    have ha : i < a.size := Nat.lt_of_lt_of_le hi h
    have hab : i < (a ++ b).size := by
      rw [ByteArray.size_append]
      omega
    rw [getElem?_pos (a ++ b) i hab, getElem?_pos a i ha, ByteArray.getElem_append_left ha]
  unfold readLength?
  rw [hbyte 0 (by decide), hbyte 1 (by decide), hbyte 2 (by decide), hbyte 3 (by decide)]

theorem readLength?_lengthField {n : Nat} (h : n < 2 ^ 32) :
    readLength? (lengthField n) = some n := by
  have hbytes : readLength? (lengthField n) = some
      ((((n >>> 24).toUInt8.toNat * 256 + (n >>> 16).toUInt8.toNat) * 256 +
        (n >>> 8).toUInt8.toNat) * 256 + n.toUInt8.toNat) := rfl
  rw [hbytes]
  simp only [UInt8.toNat_ofNat', Nat.shiftRight_eq_div_pow, Nat.toUInt8]
  congr 1
  omega

theorem lengthField_of_bytes (a b c d : UInt8) :
    lengthField (((a.toNat * 256 + b.toNat) * 256 + c.toNat) * 256 + d.toNat) =
      ⟨#[a, b, c, d]⟩ := by
  have ha := a.toNat_lt
  have hb := b.toNat_lt
  have hc := c.toNat_lt
  have hd := d.toNat_lt
  have hbyte {n : Nat} {x : UInt8} (h : n % 256 = x.toNat) : n.toUInt8 = x := by
    apply UInt8.toNat_inj.mp
    rw [Nat.toUInt8, UInt8.toNat_ofNat']
    exact h
  unfold lengthField
  simp only [Nat.shiftRight_eq_div_pow]
  rw [hbyte (x := a) (by omega), hbyte (x := b) (by omega), hbyte (x := c) (by omega),
    hbyte (x := d) (by omega)]

theorem eq_lengthField_of_readLength? {bytes : ByteArray} {n : Nat}
    (h : readLength? bytes = some n) : bytes.extract 0 fieldLength = lengthField n := by
  have hsize : fieldLength ≤ bytes.size := by
    by_contra hlt
    rw [readLength?_eq_none_iff.mpr (Nat.lt_of_not_le hlt)] at h
    cases h
  obtain ⟨a, b, c, d, hbytes, hread⟩ := readLength?_of_le hsize
  cases h.symm.trans hread
  rw [hbytes, lengthField_of_bytes]

/-! ## Records -/

/-- A frame behind its length. -/
def record (f : ByteArray) : ByteArray := lengthField f.size ++ f

theorem size_record (f : ByteArray) : (record f).size = fieldLength + f.size :=
  ByteArray.size_append

/-- A record is read as it was written, whatever comes behind it. -/
theorem head_record_append {f : ByteArray} (hf : f.size ≤ maxLength) (rest : ByteArray) :
    head (record f ++ rest) = .record f rest := by
  have hassoc : record f ++ rest = lengthField f.size ++ (f ++ rest) := ByteArray.append_assoc
  have hlength : readLength? (record f ++ rest) = some f.size := by
    rw [hassoc, readLength?_append (Nat.le_of_eq (size_lengthField _).symm),
      readLength?_lengthField (Nat.lt_of_le_of_lt hf (by decide))]
  have hsize : (record f ++ rest).size = fieldLength + (f.size + rest.size) := by
    rw [ByteArray.size_append, size_record, Nat.add_assoc]
  have hframe : (record f ++ rest).extract fieldLength (fieldLength + f.size) = f := by
    calc (record f ++ rest).extract (fieldLength + 0) (fieldLength + f.size)
        = (f ++ rest).extract 0 f.size := by
          rw [hassoc]
          exact ByteArray.extract_append_size_add' (size_lengthField _).symm
      _ = f := ByteArray.extract_append_eq_left rfl
  have hrest : (record f ++ rest).extract (fieldLength + f.size) (record f ++ rest).size =
      rest := by
    calc (record f ++ rest).extract (fieldLength + f.size) (record f ++ rest).size
        = (f ++ rest).extract f.size (f.size + rest.size) := by
          rw [hsize, hassoc]
          exact ByteArray.extract_append_size_add' (size_lengthField _).symm
      _ = rest := ByteArray.extract_append_eq_right rfl rfl
  have hlong : ¬ (record f ++ rest).size < fieldLength + f.size := by omega
  unfold head
  rw [hlength]
  simp only [if_neg (Nat.not_lt.mpr hf), if_neg hlong, hframe, hrest]

theorem head_eq_oversized_iff {bytes : ByteArray} {n : Nat} :
    head bytes = .oversized n ↔ readLength? bytes = some n ∧ maxLength < n := by
  unfold head
  cases readLength? bytes with
  | none => simp
  | some length =>
    simp only [Option.some.injEq]
    split
    · constructor
      · rintro ⟨rfl⟩
        exact ⟨rfl, ‹_›⟩
      · rintro ⟨rfl, _⟩
        rfl
    · split <;> simp <;> omega

theorem eq_of_head_eq_record {bytes f rest : ByteArray} (h : head bytes = .record f rest) :
    f.size ≤ maxLength ∧ bytes = record f ++ rest := by
  unfold head at h
  cases hr : readLength? bytes with
  | none =>
    rw [hr] at h
    cases h
  | some n =>
    simp only [hr] at h
    split at h
    · cases h
    · rename_i hn
      split at h
      · cases h
      · rename_i hsize
        cases h
        have hf : (bytes.extract fieldLength (fieldLength + n)).size = n := by
          rw [ByteArray.size_extract]
          omega
        refine ⟨by omega, ?_⟩
        calc bytes = bytes.extract 0 bytes.size := ByteArray.extract_zero_size.symm
          _ = bytes.extract 0 fieldLength ++ bytes.extract fieldLength bytes.size :=
            ByteArray.extract_eq_extract_append_extract _ (by omega) (by omega)
          _ = lengthField n ++ (bytes.extract fieldLength (fieldLength + n) ++
              bytes.extract (fieldLength + n) bytes.size) := by
            rw [eq_lengthField_of_readLength? hr,
              ByteArray.extract_eq_extract_append_extract (fieldLength + n) (by omega) (by omega)]
          _ = record (bytes.extract fieldLength (fieldLength + n)) ++
              bytes.extract (fieldLength + n) bytes.size := by
            rw [record, hf, ByteArray.append_assoc]

theorem head_append_of_record {bytes f rest : ByteArray} (h : head bytes = .record f rest)
    (more : ByteArray) : head (bytes ++ more) = .record f (rest ++ more) := by
  obtain ⟨hf, rfl⟩ := eq_of_head_eq_record h
  rw [ByteArray.append_assoc, head_record_append hf]

theorem head_append_of_oversized {bytes : ByteArray} {n : Nat} (h : head bytes = .oversized n)
    (more : ByteArray) : head (bytes ++ more) = .oversized n := by
  obtain ⟨hr, hn⟩ := head_eq_oversized_iff.mp h
  have hsize : fieldLength ≤ bytes.size := by
    by_contra hlt
    rw [readLength?_eq_none_iff.mpr (Nat.lt_of_not_le hlt)] at hr
    cases hr
  exact head_eq_oversized_iff.mpr ⟨(readLength?_append hsize more).trans hr, hn⟩

theorem size_lt_of_head_eq_short {bytes : ByteArray} {needed : Nat}
    (h : head bytes = .short needed) : bytes.size < needed := by
  unfold head at h
  cases hr : readLength? bytes with
  | none =>
    simp only [hr, Head.short.injEq] at h
    rw [← h]
    exact readLength?_eq_none_iff.mp hr
  | some n =>
    simp only [hr] at h
    split at h
    · cases h
    · split at h
      · cases h
        assumption
      · cases h

/-! ## Captures -/

/-- The capture of some frames. -/
def encode (frames : List ByteArray) : ByteArray :=
  frames.foldr (fun f capture => record f ++ capture) .empty

@[simp] theorem encode_nil : encode [] = .empty := rfl

@[simp] theorem encode_cons (f : ByteArray) (frames : List ByteArray) :
    encode (f :: frames) = record f ++ encode frames := rfl

theorem encode_append (frames frames' : List ByteArray) :
    encode (frames ++ frames') = encode frames ++ encode frames' := by
  induction frames with
  | nil => rw [List.nil_append, encode_nil, ByteArray.empty_append]
  | cons f frames ih => rw [List.cons_append, encode_cons, encode_cons, ih, ByteArray.append_assoc]

/-- What comes of asking for a frame of these bytes, and what is left then. -/
def reply (bytes : ByteArray) : Reception × ByteArray :=
  match head bytes with
  | .record f rest => (.frame f, rest)
  | .oversized length => (.failed (oversizedFault length), bytes)
  | .short _ =>
    (if bytes.isEmpty then .closed else .failed (truncatedFault bytes.size), bytes)

/-- What is left after so many frames were asked for. -/
def left (n : Nat) (bytes : ByteArray) : ByteArray := (fun b => (reply b).2)^[n] bytes

/-- What comes of asking so many times. -/
def replies (n : Nat) (bytes : ByteArray) : List Reception :=
  (List.range n).map fun i => (reply (left i bytes)).1

theorem left_succ (n : Nat) (bytes : ByteArray) :
    left (n + 1) bytes = (reply (left n bytes)).2 := Function.iterate_succ_apply' _ n bytes

theorem replies_succ (n : Nat) (bytes : ByteArray) :
    replies (n + 1) bytes = replies n bytes ++ [(reply (left n bytes)).1] := by
  simp [replies, List.range_succ]

theorem length_replies (n : Nat) (bytes : ByteArray) : (replies n bytes).length = n := by
  simp [replies]

theorem replies_succ_left (n : Nat) (bytes : ByteArray) :
    replies (n + 1) bytes = (reply bytes).1 :: replies n (reply bytes).2 := by
  simp only [replies, List.range_succ_eq_map, List.map_cons, List.map_map]
  rfl

theorem eq_encode_append_reply (bytes : ByteArray) :
    bytes = encode (reply bytes).1.frame?.toList ++ (reply bytes).2 := by
  unfold reply
  cases h : head bytes with
  | record f rest =>
    obtain ⟨_, hbytes⟩ := eq_of_head_eq_record h
    simpa [Reception.frame?, ByteArray.append_empty] using hbytes
  | oversized n => exact ByteArray.empty_append.symm
  | short needed =>
    simp only
    split <;> exact ByteArray.empty_append.symm

/-- Nothing is lost, and nothing is read twice. -/
theorem eq_encode_append_left (n : Nat) (bytes : ByteArray) :
    bytes = encode ((replies n bytes).filterMap Reception.frame?) ++ left n bytes := by
  induction n with
  | zero => exact ByteArray.empty_append.symm
  | succ n ih =>
    have hreply := eq_encode_append_reply (left n bytes)
    have hframes : (replies (n + 1) bytes).filterMap Reception.frame? =
        (replies n bytes).filterMap Reception.frame? ++
          (reply (left n bytes)).1.frame?.toList := by
      rw [replies_succ, List.filterMap_append]
      cases hr : (reply (left n bytes)).1.frame? <;> simp [hr]
    rw [hframes, encode_append, left_succ, ByteArray.append_assoc, ← hreply]
    exact ih

/-! ## Leading records -/

/-- The bytes begin with these frames, and this is what comes behind them. -/
structure Leads (bytes : ByteArray) (frames : List ByteArray) (rest : ByteArray) : Prop where
  whole : bytes = encode frames ++ rest
  fit : ∀ f ∈ frames, f.size ≤ maxLength

/-- These are all the frames that the bytes begin with. -/
structure Parses (bytes : ByteArray) (frames : List ByteArray) (rest : ByteArray) : Prop
    extends Leads bytes frames rest where
  most : ∀ frames' rest', Leads bytes frames' rest' → frames' <+: frames

theorem leads_nil (bytes : ByteArray) : Leads bytes [] bytes :=
  ⟨ByteArray.empty_append.symm, nofun⟩

theorem leads_cons_iff {f : ByteArray} {frames : List ByteArray} {bytes rest : ByteArray} :
    Leads bytes (f :: frames) rest ↔ ∃ tail, head bytes = .record f tail ∧ Leads tail frames rest := by
  constructor
  · intro h
    have hbytes : bytes = record f ++ (encode frames ++ rest) := by
      rw [h.whole, encode_cons, ByteArray.append_assoc]
    refine ⟨encode frames ++ rest, ?_, rfl, fun f' hf' => h.fit f' (.tail _ hf')⟩
    rw [hbytes, head_record_append (h.fit f (.head _))]
  · rintro ⟨tail, hhead, h⟩
    obtain ⟨hf, rfl⟩ := eq_of_head_eq_record hhead
    refine ⟨by rw [h.whole, encode_cons, ByteArray.append_assoc], ?_⟩
    intro f' hf'
    rcases List.mem_cons.mp hf' with rfl | hf'
    · exact hf
    · exact h.fit f' hf'

theorem Leads.parses {bytes rest : ByteArray} {frames : List ByteArray}
    (h : Leads bytes frames rest) (hrest : ∀ f tail, head rest ≠ .record f tail) :
    Parses bytes frames rest := by
  refine ⟨h, ?_⟩
  induction frames generalizing bytes with
  | nil =>
    obtain rfl : bytes = rest := by rw [h.whole, encode_nil, ByteArray.empty_append]
    intro frames' rest' hleads
    cases frames' with
    | nil => exact List.prefix_rfl
    | cons f frames' =>
      obtain ⟨tail, hhead, _⟩ := leads_cons_iff.mp hleads
      exact absurd hhead (hrest f tail)
  | cons f frames ih =>
    obtain ⟨tail, hhead, htail⟩ := leads_cons_iff.mp h
    intro frames' rest' hleads
    cases frames' with
    | nil => exact List.nil_prefix
    | cons f' frames' =>
      obtain ⟨tail', hhead', hleads'⟩ := leads_cons_iff.mp hleads
      cases hhead.symm.trans hhead'
      exact List.cons_prefix_cons.mpr ⟨rfl, ih htail frames' rest' hleads'⟩

theorem Parses.unique {bytes rest rest' : ByteArray} {frames frames' : List ByteArray}
    (h : Parses bytes frames rest) (h' : Parses bytes frames' rest') :
    frames = frames' ∧ rest = rest' := by
  have hprefix := h'.most frames rest h.toLeads
  have hprefix' := h.most frames' rest' h'.toLeads
  have hframes : frames = frames' :=
    hprefix.eq_of_length (Nat.le_antisymm hprefix.length_le hprefix'.length_le)
  subst hframes
  exact ⟨rfl, (ByteArray.append_right_inj _).mp (h.whole.symm.trans h'.whole)⟩

theorem exists_leads (bytes : ByteArray) : ∃ frames rest,
    Leads bytes frames rest ∧ ∀ f tail, head rest ≠ .record f tail := by
  -- Even an empty frame takes the bytes of its length away.
  induction hn : bytes.size using Nat.strongRecOn generalizing bytes with
  | _ n ih =>
    cases hhead : head bytes with
    | record f tail =>
      obtain ⟨_, hbytes⟩ := eq_of_head_eq_record hhead
      have hsize : bytes.size = fieldLength + f.size + tail.size := by
        rw [hbytes, ByteArray.size_append, size_record]
      have hless : tail.size < n := by
        unfold fieldLength at hsize
        omega
      obtain ⟨frames, rest, hleads, hrest⟩ := ih _ hless tail rfl
      exact ⟨f :: frames, rest, leads_cons_iff.mpr ⟨tail, hhead, hleads⟩, hrest⟩
    | short | oversized => exact ⟨[], bytes, leads_nil bytes, by simp [hhead]⟩

/-- What a capture comes to where no record follows. -/
structure Ends (rest : ByteArray) (ending : Reception) : Prop where
  closed : rest = .empty → ending = .closed
  oversized : ∀ n, readLength? rest = some n → maxLength < n →
    ending = .failed (oversizedFault n)
  truncated : rest ≠ .empty → (∀ n, readLength? rest = some n → n ≤ maxLength) →
    ending = .failed (truncatedFault rest.size)

theorem ends_reply {rest : ByteArray} (h : ∀ f tail, head rest ≠ .record f tail) :
    Ends rest (reply rest).1 := by
  have hempty : rest.isEmpty = true ↔ rest = .empty :=
    beq_iff_eq.trans ByteArray.size_eq_zero_iff
  unfold reply
  cases hhead : head rest with
  | record f tail => exact absurd hhead (h f tail)
  | oversized length =>
    obtain ⟨hread, hlength⟩ := head_eq_oversized_iff.mp hhead
    refine ⟨?_, ?_, ?_⟩
    · rintro rfl
      cases hread
    · intro n hn _
      cases hread.symm.trans hn
      rfl
    · intro _ hfit
      exact absurd (hfit length hread) (Nat.not_le.mpr hlength)
  | short needed =>
    refine ⟨fun he => if_pos (hempty.mpr he), ?_, fun he _ => if_neg (mt hempty.mp he)⟩
    intro n hread hn
    cases hhead.symm.trans (head_eq_oversized_iff.mpr ⟨hread, hn⟩)

theorem Ends.closed_iff {rest : ByteArray} {ending : Reception} (h : Ends rest ending) :
    ending = .closed ↔ rest = .empty := by
  refine ⟨fun hclosed => ?_, h.closed⟩
  by_contra hne
  by_cases hfit : ∀ n, readLength? rest = some n → n ≤ maxLength
  · cases hclosed.symm.trans (h.truncated hne hfit)
  · obtain ⟨n, hfit⟩ := not_forall.mp hfit
    obtain ⟨hread, hn⟩ := Classical.not_imp.mp hfit
    cases hclosed.symm.trans (h.oversized n hread (Nat.lt_of_not_le hn))

/-- The frames come first, and then the end, as often as it is asked for. -/
theorem replies_of_leads {bytes rest : ByteArray} {frames : List ByteArray}
    (h : Leads bytes frames rest) (hrest : ∀ f tail, head rest ≠ .record f tail) {n m : Nat}
    (hm : n ≤ m) :
    replies n bytes =
      (frames.map Reception.frame ++ List.replicate m (reply rest).1).take n := by
  induction n generalizing bytes frames m with
  | zero => rfl
  | succ n ih =>
    rw [replies_succ_left]
    cases frames with
    | nil =>
      obtain rfl : bytes = rest := by rw [h.whole, encode_nil, ByteArray.empty_append]
      -- Nothing is taken from the rest, so the next request finds it as it was.
      have hsame : (reply bytes).2 = bytes := by
        unfold reply
        split
        · exact absurd ‹_› (hrest _ _)
        · rfl
        · rfl
      obtain ⟨m, rfl⟩ : ∃ k, m = k + 1 := ⟨m - 1, by omega⟩
      rw [hsame, ih (leads_nil bytes) (Nat.le_of_succ_le_succ hm)]
      rfl
    | cons f frames =>
      obtain ⟨tail, hhead, htail⟩ := leads_cons_iff.mp h
      have hreply : reply bytes = (.frame f, tail) := by rw [reply, hhead]
      rw [hreply, ih htail (Nat.le_of_succ_le hm)]
      rfl

/-! ## Writing -/

theorem append_of_le {f : ByteArray} (hf : f.size ≤ maxLength) (capture : ByteArray) :
    append capture f = .ok (capture ++ record f) := by
  rw [append, if_pos hf, record, ByteArray.append_assoc]

theorem append_eq_error_iff {capture f : ByteArray} :
    (∃ why, append capture f = .error why) ↔ maxLength < f.size := by
  unfold append
  split
  · simp only [reduceCtorEq, exists_const, false_iff]
    omega
  · simp only [Except.error.injEq, exists_eq', true_iff]
    omega

/-- The capture with more frames, as far as they can be appended. -/
def write (capture : ByteArray) (frames : List ByteArray) : ByteArray :=
  frames.foldl (fun capture f => (append capture f).toOption.getD capture) capture

/-- Of the frames that are written, only those that are too long are missing. -/
theorem write_eq (capture : ByteArray) (frames : List ByteArray) :
    write capture frames = capture ++ encode (frames.filter (·.size ≤ maxLength)) := by
  induction frames generalizing capture with
  | nil => exact ByteArray.append_empty.symm
  | cons f frames ih =>
    have hcons : write capture (f :: frames) =
        write ((append capture f).toOption.getD capture) frames := rfl
    rw [hcons, ih]
    by_cases hf : f.size ≤ maxLength
    · rw [append_of_le hf, List.filter_cons_of_pos (by simpa using hf), encode_cons,
        ← ByteArray.append_assoc]
      rfl
    · obtain ⟨why, happend⟩ := append_eq_error_iff.mpr (Nat.lt_of_not_le hf)
      rw [happend, List.filter_cons_of_neg (by simpa using hf)]
      rfl

/-- Captures that can be written are those that end in good order, and what was written is read. -/
theorem Leads.frames_of_write {bytes rest : ByteArray} {frames frames' : List ByteArray}
    (h : Leads bytes frames rest) (hrest : ∀ f tail, head rest ≠ .record f tail)
    (hw : write .empty frames' = bytes) :
    frames = frames'.filter (·.size ≤ maxLength) ∧ rest = .empty := by
  have hwritten : Leads bytes (frames'.filter (·.size ≤ maxLength)) .empty := by
    refine ⟨?_, fun f hf => by simpa using (List.mem_filter.mp hf).2⟩
    rw [← hw, write_eq, ByteArray.empty_append, ByteArray.append_empty]
  exact (h.parses hrest).unique (hwritten.parses nofun)

theorem Leads.write_eq {bytes : ByteArray} {frames : List ByteArray}
    (h : Leads bytes frames .empty) : write .empty frames = bytes := by
  have hall : frames.filter (·.size ≤ maxLength) = frames :=
    List.filter_eq_self.mpr fun f hf => by simpa using h.fit f hf
  rw [Capture.write_eq, hall, ByteArray.empty_append, h.whole, ByteArray.append_empty]

end Capture

end LivePlayback
