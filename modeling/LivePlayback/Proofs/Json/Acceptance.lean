import LivePlayback.Proofs.Json.Letters
import LivePlayback.Proofs.Json.Literals

/-!
# Documents are read

A reader goes along a document of the grammar and comes to its value, unless containers are too deep
in each other or a number has no value.
-/

namespace LivePlayback.Json
set_option autoImplicit false

open Grammar

namespace Reader

variable {c : Char} {cs rest : List Char} {stack : List Open} {e : Expected}

/-! ## Blanks -/

/-- Where blanks are skipped. -/
inductive Patient : Expected → Prop where
  | value : Patient .value
  | firstItem : Patient .firstItem
  | firstKey : Patient .firstKey
  | key : Patient .key
  | colon : Patient .colon
  | next (v : Value) : Patient (.next v)

theorem feed_blank (he : Patient e) (hc : c = ' ' ∨ c = '\t' ∨ c = '\n' ∨ c = '\r') :
    feed ⟨stack, e⟩ c = some ⟨stack, e⟩ := by
  cases he <;> rcases hc with rfl | rfl | rfl | rfl <;> rfl

theorem run_blanks (he : Patient e) (hb : Blanks cs rest) :
    run ⟨stack, e⟩ cs = run ⟨stack, e⟩ rest := by
  induction hb with
  | nil => rfl
  | cons hc _ ih => exact (run_of_feed (feed_blank he hc)).trans ih

/-- What ends a number, if not the end of the text. -/
theorem head_of_blanks (hb : Blanks cs rest) (hr : ∀ c ∈ rest.head?, isNumberChar c = false) :
    ∀ c ∈ cs.head?, isNumberChar c = false := by
  cases hb with
  | nil => exact hr
  | cons hc =>
    intro c h
    cases h
    rcases hc with rfl | rfl | rfl | rfl <;> rfl

end Reader

namespace Grammar

variable {cs ds rest : List Char} {t : Tree} {l : Literal}

theorem Digits.isNumberChar (h : Digits ds) : ∀ c ∈ ds, Reader.isNumberChar c = true :=
  fun c hc => Reader.isNumberChar_of_isDigit (h.digit c hc)

theorem Numeral.isNumberChar (h : Numeral l ds) : ∀ c ∈ ds, Reader.isNumberChar c = true := by
  obtain ⟨negative, hw, _, hf, he⟩ := h
  have hmark {mark : Char} (hm : mark = 'e' ∨ mark = 'E') : Reader.isNumberChar mark = true := by
    rcases hm with rfl | rfl <;> rfl
  simp only [List.forall_mem_append]
  refine ⟨?_, hw.isNumberChar, ?_, ?_⟩
  · split
    · exact List.forall_mem_singleton.mpr rfl
    · nofun
  · cases hf with
    | none => nofun
    | some hd => exact List.forall_mem_cons.mpr ⟨rfl, hd.isNumberChar⟩
  · cases he with
    | none => nofun
    | unsigned hm hd => exact List.forall_mem_cons.mpr ⟨hmark hm, hd.isNumberChar⟩
    | plus hm hd | minus hm hd =>
      exact List.forall_mem_cons.mpr
        ⟨hmark hm, List.forall_mem_cons.mpr ⟨rfl, hd.isNumberChar⟩⟩

theorem Numeral.ne_nil (h : Numeral l ds) : ds ≠ [] := by
  obtain ⟨_, hw, _, _, _⟩ := h
  simp [hw.ne_nil]

/-- What is written starts with neither a blank nor the end of an array. -/
theorem Written.head (h : Written t cs rest) :
    ∃ d ds, cs = d :: ds ∧ Reader.isBlank d = false ∧ d ≠ ']' := by
  cases h with
  | @number l ds _ h =>
    obtain ⟨d, ds, rfl⟩ := List.exists_cons_of_ne_nil h.ne_nil
    have hd := h.isNumberChar d List.mem_cons_self
    refine ⟨d, ds ++ rest, rfl, Reader.not_isBlank_of_isNumberChar hd, ?_⟩
    rintro rfl
    cases hd
  | _ => exact ⟨_, _, rfl, rfl, by decide⟩

end Grammar

namespace Reader

variable {c : Char} {cs ds rest : List Char} {stack : List Open} {e : Expected} {t : Tree}
  {l : Literal}

theorem run_first (h : Written t cs rest) :
    run ⟨stack, .firstItem⟩ cs = run ⟨stack, .value⟩ cs := by
  obtain ⟨d, ds, rfl, hblank, hd⟩ := h.head
  have hfeed : feed ⟨stack, .firstItem⟩ d = feed ⟨stack, .value⟩ d := by
    simp only [feed, if_neg hd]
    exact feedValue_congr hblank
  simp only [run, feedAll_cons, hfeed]

theorem number?_of_numeral (h : Numeral l ds) : number? ds.reverse = l.value?.map .number := by
  rw [number?, List.reverse_reverse, ofChars?_eq_some_iff.mpr h]
  exact (Option.map_eq_bind ..).symm

theorem run_letters {s : List Char} {isKey : Bool} {r : Reader} (h : Letters s cs rest)
    (hr : closeString ⟨stack, .string isKey s.reverse .none⟩ isKey s.reverse = some r) :
    run ⟨stack, .string isKey [] .none⟩ cs = run r rest := by
  unfold run
  rw [feedAll_letters h, List.append_nil, hr]
  rfl

theorem run_key {key : String} {fields : Fields} {cs₁ cs₂ cs₃ : List Char}
    (he : e = .firstKey ∨ e = .key) (hb : Blanks cs ('"' :: cs₁))
    (hk : Letters key.toList cs₁ cs₂) (hc : Blanks cs₂ (':' :: cs₃)) :
    run ⟨.object fields :: stack, e⟩ cs = run ⟨.entry fields key :: stack, .value⟩ cs₃ := by
  have hopen : feed ⟨.object fields :: stack, e⟩ '"' =
      some ⟨.object fields :: stack, .string true [] .none⟩ := by
    rcases he with rfl | rfl <;> rfl
  have hpatient : Patient e := by
    rcases he with rfl | rfl
    · exact .firstKey
    · exact .key
  have hclose : closeString ⟨.object fields :: stack, .string true key.toList.reverse .none⟩ true
      key.toList.reverse = some ⟨.entry fields key :: stack, .colon⟩ := by
    simp [closeString]
  have hcolon : feed ⟨.entry fields key :: stack, .colon⟩ ':' =
      some ⟨.entry fields key :: stack, .value⟩ := rfl
  rw [run_blanks hpatient hb, run_of_feed hopen, run_letters hk hclose, run_blanks .colon hc,
    run_of_feed hcolon]

theorem run_of_refused {r : Reader} (h : r.feed c = none) : r.run (c :: cs) = none := by
  rw [run, feedAll_cons, h]
  rfl

theorem feed_full {o : Open} (h : stack.length + 0 = maxDepth) :
    opened ⟨stack, .value⟩ o e = none :=
  if_neg (by simp only; omega)

mutual

theorem run_written (t : Tree) {cs rest : List Char} {stack : List Open} {room : Nat}
    (h : Written t cs rest) (hroom : stack.length + room = maxDepth)
    (hrest : ∀ c ∈ rest.head?, isNumberChar c = false) :
    run ⟨stack, .value⟩ cs = (t.read? room).bind fun v => run ⟨stack, .next v⟩ rest := by
  cases t with
  | null =>
    cases h
    simp [Tree.read?, Tree.depth, Tree.value?]
    rfl
  | bool b =>
    cases h <;>
    · simp [Tree.read?, Tree.depth, Tree.value?]
      rfl
  | number l =>
    cases h with
    | number h =>
      rw [run_numeral h.ne_nil h.isNumberChar hrest, number?_of_numeral h]
      simp [Tree.read?, Tree.depth, Tree.value?]
  | string s =>
    cases h with
    | string h =>
      have hopen : feed ⟨stack, .value⟩ '"' = some ⟨stack, .string false [] .none⟩ := rfl
      have hclose : closeString ⟨stack, .string false s.toList.reverse .none⟩ false
          s.toList.reverse = some ⟨stack, .next (.string s)⟩ := by
        simp [closeString]
      rw [run_of_feed hopen, run_letters h hclose]
      simp [Tree.read?, Tree.depth, Tree.value?]
  | array items =>
    cases room with
    | zero =>
      have hfull : feed ⟨stack, .value⟩ '[' = none := feed_full hroom
      cases h <;>
      · rw [run_of_refused hfull]
        simp [Tree.read?, Tree.depth]
    | succ room =>
      have hopen : feed ⟨stack, .value⟩ '[' = some ⟨.array [] :: stack, .firstItem⟩ :=
        feed_opened (Nat.le_of_eq hroom)
      cases h with
      | emptyArray hb =>
        have hclose : feed ⟨.array [] :: stack, .firstItem⟩ ']' =
            some ⟨stack, .next (.array [])⟩ := rfl
        rw [run_of_feed hopen, run_blanks .firstItem hb, run_of_feed hclose, Tree.read?_array]
        simp [readItems?, itemDepth, itemValues?]
      | array h =>
        rw [run_of_feed hopen, run_items items [] (.inl rfl) h hroom, Tree.read?_array,
          Option.bind_map]
        rfl
  | object entries =>
    cases room with
    | zero =>
      have hfull : feed ⟨stack, .value⟩ '{' = none := feed_full hroom
      cases h <;>
      · rw [run_of_refused hfull]
        simp [Tree.read?, Tree.depth]
    | succ room =>
      have hopen : feed ⟨stack, .value⟩ '{' = some ⟨.object [] :: stack, .firstKey⟩ :=
        feed_opened (Nat.le_of_eq hroom)
      cases h with
      | emptyObject hb =>
        have hclose : feed ⟨.object [] :: stack, .firstKey⟩ '}' =
            some ⟨stack, .next (.object [])⟩ := rfl
        rw [run_of_feed hopen, run_blanks .firstKey hb, run_of_feed hclose, Tree.read?_object]
        simp [readEntries?, entryDepth, entryValues?, Entries.collect]
      | object h =>
        rw [run_of_feed hopen, run_entries entries [] (.inl rfl) h hroom, Tree.read?_object,
          Option.bind_map]
        rfl

theorem run_items (items : List Tree) {cs rest : List Char} {stack : List Open} {room : Nat}
    (acc : List Value) {e : Expected} (he : e = .firstItem ∨ e = .value)
    (h : WrittenItems items cs rest) (hroom : stack.length + (room + 1) = maxDepth) :
    run ⟨.array acc :: stack, e⟩ cs = (readItems? room items).bind fun vs =>
      run ⟨stack, .next (.array (acc.reverse ++ vs))⟩ rest := by
  cases items with
  | nil => cases h
  | cons t items =>
    have hdepth : (Open.array acc :: stack).length + room = maxDepth := by
      rw [List.length_cons]
      omega
    have hitem {cs cs₁ cs₂ : List Char} (hb : Blanks cs cs₁) (ht : Written t cs₁ cs₂)
        (hend : ∀ c ∈ cs₂.head?, isNumberChar c = false) : run ⟨.array acc :: stack, e⟩ cs =
          (t.read? room).bind fun v => run ⟨.array acc :: stack, .next v⟩ cs₂ := by
      have hv := run_written t ht hdepth hend
      rcases he with rfl | rfl
      · rw [run_blanks .firstItem hb, run_first ht, hv]
      · rw [run_blanks .value hb, hv]
    rw [readItems?_cons, Option.bind_assoc]
    cases h with
    | last hb ht ha =>
      rw [hitem hb ht (head_of_blanks ha fun c hc => by cases hc; rfl)]
      refine Option.bind_congr fun v _ => ?_
      have hclose : feed ⟨.array acc :: stack, .next v⟩ ']' =
          some ⟨stack, .next (.array (v :: acc).reverse)⟩ := rfl
      rw [run_blanks (.next v) ha, run_of_feed hclose, List.reverse_cons]
      simp [readItems?, itemDepth, itemValues?]
    | cons hb ht ha hs =>
      rw [hitem hb ht (head_of_blanks ha fun c hc => by cases hc; rfl)]
      refine Option.bind_congr fun v _ => ?_
      have hcomma : feed ⟨.array acc :: stack, .next v⟩ ',' =
          some ⟨.array (v :: acc) :: stack, .value⟩ := rfl
      rw [run_blanks (.next v) ha, run_of_feed hcomma,
        run_items items (v :: acc) (.inr rfl) hs hroom, Option.bind_map, List.reverse_cons]
      refine Option.bind_congr fun vs _ => ?_
      rw [List.append_assoc]
      rfl

theorem run_entries (entries : List (String × Tree)) {cs rest : List Char} {stack : List Open}
    {room : Nat} (acc : Fields) {e : Expected} (he : e = .firstKey ∨ e = .key)
    (h : WrittenEntries entries cs rest) (hroom : stack.length + (room + 1) = maxDepth) :
    run ⟨.object acc :: stack, e⟩ cs = (readEntries? room entries).bind fun es =>
      run ⟨stack, .next (.object
        (es.foldl (fun acc e => Entries.insert e.1 e.2 acc) acc))⟩ rest := by
  cases entries with
  | nil => cases h
  | cons first entries =>
    obtain ⟨key, t⟩ := first
    have hdepth : (Open.entry acc key :: stack).length + room = maxDepth := by
      rw [List.length_cons]
      omega
    rw [readEntries?_cons, Option.bind_assoc]
    cases h with
    | last hb hk hc hv ht ha =>
      rw [run_key he hb hk hc, run_blanks .value hv,
        run_written t ht hdepth (head_of_blanks ha fun c hc => by cases hc; rfl)]
      refine Option.bind_congr fun v _ => ?_
      have hclose : feed ⟨.entry acc key :: stack, .next v⟩ '}' =
          some ⟨stack, .next (.object (Entries.insert key v acc))⟩ := rfl
      rw [run_blanks (.next v) ha, run_of_feed hclose]
      simp [readEntries?, entryDepth, entryValues?]
    | cons hb hk hc hv ht ha hs =>
      rw [run_key he hb hk hc, run_blanks .value hv,
        run_written t ht hdepth (head_of_blanks ha fun c hc => by cases hc; rfl)]
      refine Option.bind_congr fun v _ => ?_
      have hcomma : feed ⟨.entry acc key :: stack, .next v⟩ ',' =
          some ⟨.object (Entries.insert key v acc) :: stack, .key⟩ := rfl
      rw [run_blanks (.next v) ha, run_of_feed hcomma, run_entries entries _ (.inr rfl) hs hroom,
        Option.bind_map]
      rfl

end

end Reader

open Reader

/-- A document is read, but for the room that its containers and numbers take. -/
theorem Value.ofText?_of_document {t : Tree} {text : String} (h : Document t text) :
    ofText? text = t.read? maxDepth := by
  obtain ⟨cs, rest, hb, ht, ha⟩ := h
  have hrun : ofText? text = run start text.toList := rfl
  have hend : ∀ c ∈ rest.head?, isNumberChar c = false := head_of_blanks ha nofun
  have hroom : ([] : List Open).length + maxDepth = maxDepth := Nat.zero_add _
  rw [hrun, start, run_blanks .value hb, run_written t ht hroom hend]
  calc (t.read? maxDepth).bind fun v => run ⟨[], .next v⟩ rest
    _ = (t.read? maxDepth).bind some :=
      Option.bind_congr fun v _ => run_blanks (.next v) ha
    _ = t.read? maxDepth := Option.bind_fun_some _

end LivePlayback.Json
