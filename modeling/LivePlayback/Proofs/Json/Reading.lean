import LivePlayback.Json.Printer
import LivePlayback.Proofs.Entries
import LivePlayback.Proofs.Json.Numerals

/-!
# Reading what was printed

A reader that is fed the text of a value comes to the same value, but for its floats: each of those
is what its own text reads as, and one that does not read at all spoils the whole.
-/

namespace LivePlayback.Json
set_option autoImplicit false

open Decimal

namespace Reader

/-- A reader after some more text. -/
def feedAll (r : Reader) (cs : List Char) : Option Reader := cs.foldlM feed r

/-- The value of a text that ends here. -/
def run (r : Reader) (cs : List Char) : Option Value := (r.feedAll cs).bind finish?

variable {r : Reader} {stack : List Open} {c : Char} {cs written : List Char} {isKey : Bool}

theorem feedAll_cons : r.feedAll (c :: cs) = (r.feed c).bind fun r => r.feedAll cs := rfl

theorem feedAll_of_feed {r' : Reader} (h : r.feed c = some r') :
    r.feedAll (c :: cs) = r'.feedAll cs := by
  rw [feedAll_cons, h]
  rfl

theorem run_of_feed {r' : Reader} (h : r.feed c = some r') : r.run (c :: cs) = r'.run cs :=
  congrArg (·.bind finish?) (feedAll_of_feed h)

/-! ## Strings -/

theorem hexValue?_hexDigit {n : Nat} (h : n < 16) : hexValue? (hexDigit n) = some n := by
  have hall : ∀ n : Fin 16, hexValue? (hexDigit n) = some n.val := by decide
  exact hall ⟨n, h⟩

theorem unit?_control (h : c.toNat < 0x20) :
    unit? written none c.toNat = some (c :: written, .none) := by
  have hhigh : isHigh c.toNat = false := by simp [isHigh]; omega
  have hlow : isLow c.toNat = false := by simp [isLow]; omega
  simp [unit?, hhigh, hlow, Char.ofNat_toNat]

theorem feedAll_control (h : c.toNat < 0x20) :
    feedAll ⟨stack, .string isKey written .none⟩
      ('\\' :: 'u' :: '0' :: '0' :: hexDigit (c.toNat / 16) :: hexDigit (c.toNat % 16) :: cs) =
      feedAll ⟨stack, .string isKey (c :: written) .none⟩ cs := by
  have hupper : hexValue? (hexDigit (c.toNat / 16)) = some (c.toNat / 16) :=
    hexValue?_hexDigit (by omega)
  have hlower : hexValue? (hexDigit (c.toNat % 16)) = some (c.toNat % 16) :=
    hexValue?_hexDigit (by omega)
  have hzero : hexValue? '0' = some 0 := by decide
  have hsum : c.toNat / 16 * 16 + c.toNat % 16 = c.toNat := by omega
  simp [feedAll_cons, feed, inString?, hupper, hlower, hzero, hsum, unit?_control h]

/-- An escaped character reads as the character. -/
theorem feedAll_escaped : feedAll ⟨stack, .string isKey written .none⟩ (escaped c ++ cs) =
    feedAll ⟨stack, .string isKey (c :: written) .none⟩ cs := by
  unfold escaped
  -- A quote, a backslash and five of the control characters have an escape of their own.
  iterate 7
    split
    · subst_vars
      rfl
  split
  · rename_i h
    exact feedAll_control h
  · rename_i hquote hbackslash _ _ _ _ _ hcontrol
    simp [feedAll_cons, feed, inString?, hquote, hbackslash, hcontrol]

theorem feedAll_escapes {s : List Char} :
    feedAll ⟨stack, .string isKey written .none⟩ (s.flatMap escaped ++ '"' :: cs) =
      (closeString ⟨stack, .string isKey (s.reverse ++ written) .none⟩ isKey
        (s.reverse ++ written)).bind fun r => r.feedAll cs := by
  induction s generalizing written with
  | nil => rfl
  | cons c s ih =>
    rw [List.flatMap_cons, List.append_assoc, feedAll_escaped, ih, List.reverse_cons,
      List.append_assoc]
    rfl

theorem feedAll_quoted {s : String} :
    feedAll ⟨stack, .value⟩ (quoted s ++ cs) = feedAll ⟨stack, .next (.string s)⟩ cs := by
  have hopen : feed ⟨stack, .value⟩ '"' = some ⟨stack, .string false [] .none⟩ := rfl
  rw [quoted, List.cons_append, feedAll_of_feed hopen, List.append_assoc]
  refine feedAll_escapes.trans ?_
  simp [closeString]

theorem feedAll_key {key : String} {fields : Fields} {e : Expected}
    (he : e = .firstKey ∨ e = .key) :
    feedAll ⟨.object fields :: stack, e⟩ (quoted key ++ cs) =
      feedAll ⟨.entry fields key :: stack, .colon⟩ cs := by
  have hopen : feed ⟨.object fields :: stack, e⟩ '"' =
      some ⟨.object fields :: stack, .string true [] .none⟩ := by
    rcases he with rfl | rfl <;> rfl
  rw [quoted, List.cons_append, feedAll_of_feed hopen, List.append_assoc]
  refine feedAll_escapes.trans ?_
  simp [closeString]

/-! ## Numbers -/

theorem feedAll_append {cs' : List Char} :
    r.feedAll (cs ++ cs') = (r.feedAll cs).bind fun r => r.feedAll cs' := List.foldlM_append

theorem feedAll_number {ds : List Char} (hd : ∀ d ∈ ds, isNumberChar d = true) :
    feedAll ⟨stack, .number written⟩ ds = some ⟨stack, .number (ds.reverse ++ written)⟩ := by
  induction ds generalizing written with
  | nil => rfl
  | cons d ds ih =>
    have hfeed : feed ⟨stack, .number written⟩ d = some ⟨stack, .number (d :: written)⟩ := by
      simp [feed, hd d List.mem_cons_self]
    rw [feedAll_of_feed hfeed, ih fun c hc => hd c (List.mem_cons_of_mem _ hc),
      List.reverse_cons, List.append_assoc]
    rfl

theorem feedAll_number_of_not (hc : isNumberChar c = false) :
    feedAll ⟨stack, .number written⟩ (c :: cs) =
      (number? written).bind fun v => feedAll ⟨stack, .next v⟩ (c :: cs) := by
  have hfeed : feed ⟨stack, .number written⟩ c =
      (number? written).bind fun v => feed ⟨stack, .next v⟩ c := by
    simp only [feed, hc]
    rfl
  rw [feedAll_cons, hfeed]
  cases number? written <;> rfl

/-- What starts like no number is none. -/
theorem number?_eq_none {d : Char} {ds : List Char} (hd : d.isDigit = false) (hm : d ≠ '-') :
    number? (d :: ds).reverse = none := by
  have hsign : Literal.sign (d :: ds) = (false, d :: ds) := by
    unfold Literal.sign
    split
    · rename_i heq
      cases heq
      exact absurd rfl hm
    · rfl
  have hwhole : Literal.whole? (d :: ds) = none := by
    unfold Literal.whole?
    split
    · rename_i heq
      cases heq
      cases hd
    · rw [List.span_eq_takeWhile_dropWhile, List.takeWhile_cons_of_neg (by simp [hd])]
      rfl
  have hliteral : Literal.ofChars? (d :: ds) = none := by
    unfold Literal.ofChars?
    rw [hsign]
    simp [hwhole]
  unfold number?
  rw [List.reverse_reverse, hliteral]
  rfl

theorem not_isBlank_of_isNumberChar {d : Char} (hd : isNumberChar d = true) :
    isBlank d = false := by
  cases hb : isBlank d with
  | false => rfl
  | true =>
    simp only [isBlank, Bool.or_eq_true, beq_iff_eq] at hb
    rcases hb with ((rfl | rfl) | rfl) | rfl <;> cases hd

/-- Only a blank leaves a reader as it is. -/
theorem feedValue_congr {d : Char} {e e' : Expected} (hd : isBlank d = false) :
    feedValue ⟨stack, e⟩ d = feedValue ⟨stack, e'⟩ d := by
  unfold feedValue
  split
  case h_7 => simp [hd]
  all_goals rfl

theorem feedValue_of_isNumberChar {d : Char} (hd : isNumberChar d = true) (e : Expected) :
    feedValue ⟨stack, e⟩ d =
      if d == '-' || d.isDigit then some ⟨stack, .number [d]⟩ else none := by
  have hblank := not_isBlank_of_isNumberChar hd
  unfold feedValue
  split
  case h_7 => simp [hblank]
  all_goals cases hd

/-- A reader takes characters of a number for the beginning of one, unless no number starts so. -/
theorem feedAll_numberChars {ds : List Char} (hds : ds ≠ [])
    (hd : ∀ d ∈ ds, isNumberChar d = true) :
    feedAll ⟨stack, .value⟩ (ds ++ cs) = feedAll ⟨stack, .number ds.reverse⟩ cs ∨
      feedAll ⟨stack, .value⟩ (ds ++ cs) = none ∧ number? ds.reverse = none := by
  cases ds with
  | nil => exact absurd rfl hds
  | cons d ds =>
    have hfirst : feed ⟨stack, .value⟩ d = _ :=
      feedValue_of_isNumberChar (hd d List.mem_cons_self) _
    cases hstart : d == '-' || d.isDigit with
    | true =>
      rw [hstart, if_pos rfl] at hfirst
      left
      rw [List.cons_append, feedAll_of_feed hfirst, feedAll_append,
        feedAll_number fun d' hd' => hd d' (List.mem_cons_of_mem _ hd'), List.reverse_cons]
      rfl
    | false =>
      rw [hstart, if_neg (by decide)] at hfirst
      right
      rw [List.cons_append, feedAll_cons, hfirst]
      simp only [Bool.or_eq_false_iff, beq_eq_false_iff_ne] at hstart
      exact ⟨rfl, number?_eq_none hstart.2 hstart.1⟩

theorem feedAll_numeral {ds : List Char} (hds : ds ≠ []) (hd : ∀ d ∈ ds, isNumberChar d = true)
    (hc : isNumberChar c = false) : feedAll ⟨stack, .value⟩ (ds ++ c :: cs) =
      (number? ds.reverse).bind fun v => feedAll ⟨stack, .next v⟩ (c :: cs) := by
  rcases feedAll_numberChars hds hd with h | ⟨h, hnone⟩
  · exact h.trans (feedAll_number_of_not hc)
  · rw [h, hnone]
    rfl

theorem finish?_number :
    finish? ⟨stack, .number written⟩ = (number? written).bind fun v => finish? ⟨stack, .next v⟩ := by
  cases stack with
  | nil => exact (Option.bind_fun_some (number? written)).symm
  | cons => cases number? written <;> rfl

/-- A number ends where no more of its characters come, also at the end of the text. -/
theorem run_numeral {ds : List Char} (hds : ds ≠ []) (hd : ∀ d ∈ ds, isNumberChar d = true)
    (hc : ∀ c ∈ cs.head?, isNumberChar c = false) : run ⟨stack, .value⟩ (ds ++ cs) =
      (number? ds.reverse).bind fun v => run ⟨stack, .next v⟩ cs := by
  unfold run
  cases cs with
  | nil =>
    rcases feedAll_numberChars hds hd with h | ⟨h, hnone⟩
    · rw [h]
      exact finish?_number
    · rw [h, hnone]
      rfl
  | cons c cs => rw [feedAll_numeral hds hd (hc c rfl), Option.bind_assoc]

end Reader

/-! ## Values -/

mutual

/-- What the text of a value reads as. -/
def Value.reread? : Value → Option Value
  | .null => some .null
  | .bool b => some (.bool b)
  | .number n => Reader.number? n.chars.reverse
  | .string s => some (.string s)
  | .array items => (rereadItems? items).map .array
  | .object fields => (rereadFields? fields).map fun fields => .object (Entries.collect fields)

def rereadItems? : List Value → Option (List Value)
  | [] => some []
  | v :: items => v.reread?.bind fun w => (rereadItems? items).map (w :: ·)

def rereadFields? : Fields → Option Fields
  | [] => some []
  | (key, v) :: fields => v.reread?.bind fun w => (rereadFields? fields).map ((key, w) :: ·)

end

/-- A value that a reader may come to with so many containers to spare. -/
inductive Value.Legible : Nat → Value → Prop where
  | null {room : Nat} : Legible room .null
  | bool {room : Nat} (b : Bool) : Legible room (.bool b)
  | number {room : Nat} {n : Number} (h : n.Readable) : Legible room (.number n)
  | string {room : Nat} (s : String) : Legible room (.string s)
  | array {room : Nat} {items : List Value} (h : ∀ v ∈ items, Legible room v) :
      Legible (room + 1) (.array items)
  | object {room : Nat} {fields : Fields} (hs : Entries.Sorted fields)
      (h : ∀ e ∈ fields, Legible room e.2) : Legible (room + 1) (.object fields)

open Reader

/-- Whatever comes next, a reader takes the text of the value for what it reads as. -/
def Value.Reads (room : Nat) (v : Value) : Prop :=
  ∀ stack c cs, stack.length + room ≤ maxDepth → isNumberChar c = false →
    feedAll ⟨stack, .value⟩ (v.chars ++ c :: cs) =
      v.reread?.bind fun w => feedAll ⟨stack, .next w⟩ (c :: cs)

section

variable {room : Nat} {stack : List Open} {cs : List Char}

theorem Reader.feed_opened {o : Open} {e : Expected} (h : stack.length + (room + 1) ≤ maxDepth) :
    opened ⟨stack, .value⟩ o e = some ⟨o :: stack, e⟩ :=
  if_pos (by simp only; omega)

/-- The text of a value starts with neither a blank nor the end of an array. -/
theorem Value.chars_head (v : Value) :
    ∃ d ds, v.chars = d :: ds ∧ isBlank d = false ∧ d ≠ ']' := by
  cases v with
  | bool b => cases b <;> exact ⟨_, _, rfl, rfl, by decide⟩
  | null | string | array | object => exact ⟨_, _, rfl, rfl, by decide⟩
  | number n =>
    obtain ⟨d, ds, hn⟩ := List.exists_cons_of_ne_nil n.chars_ne_nil
    have hd : isNumberChar d = true := isNumberChar_of_mem_chars (hn ▸ List.mem_cons_self)
    refine ⟨d, ds, hn, not_isBlank_of_isNumberChar hd, ?_⟩
    rintro rfl
    cases hd

theorem feedAll_item {e : Expected} (he : e = .firstItem ∨ e = .value) (v : Value) :
    feedAll ⟨stack, e⟩ (v.chars ++ cs) = feedAll ⟨stack, .value⟩ (v.chars ++ cs) := by
  rcases he with rfl | rfl
  · obtain ⟨d, ds, hv, hblank, hd⟩ := v.chars_head
    have hfeed : feed ⟨stack, .firstItem⟩ d = feed ⟨stack, .value⟩ d := by
      simp only [feed, if_neg hd]
      exact feedValue_congr hblank
    rw [hv, List.cons_append, feedAll_cons, feedAll_cons, hfeed]
  · rfl

theorem itemChars_cons_cons (v w : Value) (items : List Value) :
    itemChars (v :: w :: items) = v.chars ++ ',' :: itemChars (w :: items) := by
  rw [itemChars]
  simp

theorem fieldChars_cons_cons (key : String) (v : Value) (e : String × Value) (fields : Fields) :
    fieldChars ((key, v) :: e :: fields) =
      quoted key ++ ':' :: (v.chars ++ ',' :: fieldChars (e :: fields)) := by
  rw [fieldChars]
  simp

theorem feedAll_items {items : List Value} (acc : List Value) {e : Expected}
    (he : e = .firstItem ∨ e = .value) (hi : items ≠ []) (h : ∀ v ∈ items, v.Reads room)
    (hroom : stack.length + (room + 1) ≤ maxDepth) :
    feedAll ⟨.array acc :: stack, e⟩ (itemChars items ++ ']' :: cs) =
      (rereadItems? items).bind fun ws =>
        feedAll ⟨stack, .next (.array (acc.reverse ++ ws))⟩ cs := by
  -- The items that were read so far are in the open array, the last one first.
  induction items generalizing acc e with
  | nil => exact absurd rfl hi
  | cons v items ih =>
    have hv := h v List.mem_cons_self
    have hdepth : (Open.array acc :: stack).length + room ≤ maxDepth := by
      simp only [List.length_cons]
      omega
    rw [rereadItems?, Option.bind_assoc]
    cases items with
    | nil =>
      rw [itemChars, feedAll_item he, hv _ _ _ hdepth rfl]
      refine Option.bind_congr fun w _ => ?_
      have hclose : feed ⟨.array acc :: stack, .next w⟩ ']' =
          some ⟨stack, .next (.array (w :: acc).reverse)⟩ := rfl
      rw [feedAll_of_feed hclose, List.reverse_cons]
      rfl
    | cons v' items =>
      rw [itemChars_cons_cons, List.append_assoc, List.cons_append, feedAll_item he,
        hv _ _ _ hdepth rfl]
      refine Option.bind_congr fun w _ => ?_
      have hcomma : feed ⟨.array acc :: stack, .next w⟩ ',' =
          some ⟨.array (w :: acc) :: stack, .value⟩ := rfl
      have hrest := ih (w :: acc) (.inr rfl) (List.cons_ne_nil _ _)
        fun u hu => h u (List.mem_cons_of_mem _ hu)
      rw [feedAll_of_feed hcomma, hrest, Option.bind_map]
      refine Option.bind_congr fun ws _ => ?_
      rw [List.reverse_cons, List.append_assoc]
      rfl

theorem feedAll_fields {fields : Fields} (acc : Fields) {e : Expected}
    (he : e = .firstKey ∨ e = .key) (hf : fields ≠ []) (h : ∀ e ∈ fields, e.2.Reads room)
    (hroom : stack.length + (room + 1) ≤ maxDepth) :
    feedAll ⟨.object acc :: stack, e⟩ (fieldChars fields ++ '}' :: cs) =
      (rereadFields? fields).bind fun ws => feedAll ⟨stack, .next (.object
        (ws.foldl (fun acc e => Entries.insert e.1 e.2 acc) acc))⟩ cs := by
  -- Each field is added to the open object at once, and takes the place of one with its key.
  induction fields generalizing acc e with
  | nil => exact absurd rfl hf
  | cons first fields ih =>
    obtain ⟨key, v⟩ := first
    have hv : v.Reads room := h (key, v) List.mem_cons_self
    have hdepth : (Open.entry acc key :: stack).length + room ≤ maxDepth := by
      simp only [List.length_cons]
      omega
    have hcolon : feed ⟨.entry acc key :: stack, .colon⟩ ':' =
        some ⟨.entry acc key :: stack, .value⟩ := rfl
    rw [rereadFields?, Option.bind_assoc]
    cases fields with
    | nil =>
      rw [fieldChars, List.append_assoc, feedAll_key he, List.cons_append,
        feedAll_of_feed hcolon, hv _ _ _ hdepth rfl]
      refine Option.bind_congr fun w _ => ?_
      have hclose : feed ⟨.entry acc key :: stack, .next w⟩ '}' =
          some ⟨stack, .next (.object (Entries.insert key w acc))⟩ := rfl
      rw [feedAll_of_feed hclose]
      rfl
    | cons second fields =>
      rw [fieldChars_cons_cons, List.append_assoc, feedAll_key he, List.cons_append,
        feedAll_of_feed hcolon, List.append_assoc, List.cons_append, hv _ _ _ hdepth rfl]
      refine Option.bind_congr fun w _ => ?_
      have hcomma : feed ⟨.entry acc key :: stack, .next w⟩ ',' =
          some ⟨.object (Entries.insert key w acc) :: stack, .key⟩ := rfl
      have hrest := ih (Entries.insert key w acc) (.inr rfl) (List.cons_ne_nil _ _)
        fun u hu => h u (List.mem_cons_of_mem _ hu)
      rw [feedAll_of_feed hcomma, hrest, Option.bind_map]
      rfl

end

/-- A reader takes the text of a value that it may come to for what it reads as. -/
theorem Value.Legible.reads {room : Nat} {v : Value} (h : v.Legible room) : v.Reads room := by
  induction h with
  | null =>
    intro stack c cs _ _
    rfl
  | bool b =>
    intro stack c cs _ _
    cases b <;> rfl
  | string s =>
    intro stack c cs _ _
    rw [chars, feedAll_quoted]
    rfl
  | @number _ n =>
    intro stack c cs _ hc
    exact feedAll_numeral n.chars_ne_nil (fun d => isNumberChar_of_mem_chars) hc
  | @array room items _ ih =>
    intro stack c cs hroom _
    have hopen : feed ⟨stack, .value⟩ '[' = some ⟨.array [] :: stack, .firstItem⟩ :=
      feed_opened hroom
    rw [chars, List.cons_append, feedAll_of_feed hopen, List.append_assoc, reread?]
    cases items with
    | nil => rfl
    | cons v items =>
      refine (feedAll_items [] (.inl rfl) (List.cons_ne_nil _ _) ih hroom).trans ?_
      rw [Option.bind_map]
      rfl
  | @object room fields _ _ ih =>
    intro stack c cs hroom _
    have hopen : feed ⟨stack, .value⟩ '{' = some ⟨.object [] :: stack, .firstKey⟩ :=
      feed_opened hroom
    rw [chars, List.cons_append, feedAll_of_feed hopen, List.append_assoc, reread?]
    cases fields with
    | nil => rfl
    | cons e fields =>
      refine (feedAll_fields [] (.inl rfl) (List.cons_ne_nil _ _) ih hroom).trans ?_
      rw [Option.bind_map]
      rfl

/-! ## Documents -/

theorem Value.ofText?_text (v : Value) :
    ofText? v.text = (feedAll start v.chars).bind Reader.finish? := by
  unfold ofText? ofChars? text
  rw [String.toList_ofList]
  rfl

/-- An object is read entry by entry, whether a key is repeated or not. -/
theorem Value.ofText?_object {fields : Fields} {room : Nat} (hroom : room < maxDepth)
    (h : ∀ e ∈ fields, e.2.Legible room) : ofText? (Value.object fields).text =
      (rereadFields? fields).map fun fields => .object (Entries.collect fields) := by
  have hopen : feed start '{' = some ⟨[.object []], .firstKey⟩ := rfl
  rw [ofText?_text, chars, feedAll_of_feed hopen]
  cases fields with
  | nil => rfl
  | cons e fields =>
    rw [feedAll_fields [] (.inl rfl) (List.cons_ne_nil _ _) (fun e he => (h e he).reads)
      (by rwa [List.length_nil, Nat.zero_add]), Option.bind_assoc]
    exact (Option.map_eq_bind ..).symm

theorem Value.ofText?_number (n : Number) :
    ofText? (Value.number n).text = number? n.chars.reverse := by
  have hrun : run start (n.chars ++ []) = _ :=
    run_numeral n.chars_ne_nil (fun c => isNumberChar_of_mem_chars) nofun
  rw [List.append_nil] at hrun
  rw [ofText?_text]
  exact hrun.trans (Option.bind_fun_some _)

end LivePlayback.Json
