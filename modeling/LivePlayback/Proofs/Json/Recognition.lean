import LivePlayback.Proofs.Json.Acceptance

/-!
# What is read is a document

If a reader comes to a value, then its text is a document of the grammar. The proof goes back over
the text one character at a time. For everything that a reader may expect it says what text is due
then: the rest of what is being read, and the ends of all open containers.
-/

namespace LivePlayback.Json
set_option autoImplicit false

open Grammar

namespace Reader

variable {c : Char} {cs rest written : List Char} {stack : List Open} {e : Expected} {t : Tree}
  {v : Value}

/-! ## What is due -/

/-- Behind a value: the ends of all open containers, with what is still in them. -/
inductive Closes : List Open → List Char → Prop where
  | done {cs : List Char} (hb : Blanks cs []) : Closes [] cs
  | lastItem {stack : List Open} {acc : List Value} {cs rest : List Char}
      (hb : Blanks cs (']' :: rest)) (h : Closes stack rest) : Closes (.array acc :: stack) cs
  | nextItem {stack : List Open} {acc : List Value} {items : List Tree} {cs cs₁ rest : List Char}
      (hb : Blanks cs (',' :: cs₁)) (hs : WrittenItems items cs₁ rest) (h : Closes stack rest) :
      Closes (.array acc :: stack) cs
  | lastEntry {stack : List Open} {fields : Fields} {key : String} {cs rest : List Char}
      (hb : Blanks cs ('}' :: rest)) (h : Closes stack rest) :
      Closes (.entry fields key :: stack) cs
  | nextEntry {stack : List Open} {fields : Fields} {entries : List (String × Tree)}
      {key : String} {cs cs₁ rest : List Char} (hb : Blanks cs (',' :: cs₁))
      (hs : WrittenEntries entries cs₁ rest) (h : Closes stack rest) :
      Closes (.entry fields key :: stack) cs

/-- A value, and the ends of all open containers. -/
def ValueDue (stack : List Open) (cs : List Char) : Prop :=
  ∃ cs₁ t rest, Blanks cs cs₁ ∧ Written t cs₁ rest ∧ Closes stack rest

def ColonDue (stack : List Open) (cs : List Char) : Prop :=
  ∃ cs₁, Blanks cs (':' :: cs₁) ∧ ValueDue stack cs₁

/-- What is due behind a string. -/
inductive StringEnds : List Open → Bool → List Char → Prop where
  | value {stack : List Open} {rest : List Char} (h : Closes stack rest) :
      StringEnds stack false rest
  | key {stack : List Open} {fields : Fields} {key : String} {rest : List Char}
      (h : ColonDue (.entry fields key :: stack) rest) :
      StringEnds (.object fields :: stack) true rest

/-- The rest of a string. The letter that it is in starts with what was taken of it. -/
def StringDue (stack : List Open) (isKey : Bool) (escape : Escape) (cs : List Char) : Prop :=
  ∀ pre, Taken escape pre → ∃ s rest, Letters s (pre ++ cs) rest ∧ StringEnds stack isKey rest

def KeyDue (stack : List Open) (cs : List Char) : Prop :=
  ∃ cs₁, Blanks cs ('"' :: cs₁) ∧ StringDue stack true .none cs₁

/-- The text that is due to a reader if it is to come to a value. -/
def Due (r : Reader) (cs : List Char) : Prop :=
  match r.expected with
  | .value => ValueDue r.stack cs
  | .firstItem => ValueDue r.stack cs ∨ ∃ items stack rest, r.stack = .array items :: stack ∧
      Blanks cs (']' :: rest) ∧ Closes stack rest
  | .firstKey => KeyDue r.stack cs ∨ ∃ fields stack rest, r.stack = .object fields :: stack ∧
      Blanks cs ('}' :: rest) ∧ Closes stack rest
  | .key => KeyDue r.stack cs
  | .colon => ColonDue r.stack cs
  | .next _ => Closes r.stack cs
  | .word ds _ => ∃ rest, cs = ds ++ rest ∧ Closes r.stack rest
  | .number written => ∃ ds rest l, cs = ds ++ rest ∧ Numeral l (written.reverse ++ ds) ∧
      Closes r.stack rest
  | .string isKey _ escape => StringDue r.stack isKey escape cs

theorem Closes.blank (hc : isBlank c = true) (h : Closes stack cs) : Closes stack (c :: cs) := by
  have hc := isBlank_iff.mp hc
  cases h with
  | done hb => exact .done (.cons hc hb)
  | lastItem hb h => exact .lastItem (.cons hc hb) h
  | nextItem hb hs h => exact .nextItem (.cons hc hb) hs h
  | lastEntry hb h => exact .lastEntry (.cons hc hb) h
  | nextEntry hb hs h => exact .nextEntry (.cons hc hb) hs h

theorem ValueDue.blank (hc : isBlank c = true) (h : ValueDue stack cs) :
    ValueDue stack (c :: cs) := by
  obtain ⟨cs₁, t, rest, hb, h⟩ := h
  exact ⟨cs₁, t, rest, .cons (isBlank_iff.mp hc) hb, h⟩

theorem KeyDue.blank (hc : isBlank c = true) (h : KeyDue stack cs) : KeyDue stack (c :: cs) := by
  obtain ⟨cs₁, hb, h⟩ := h
  exact ⟨cs₁, .cons (isBlank_iff.mp hc) hb, h⟩

/-- Wherever blanks are skipped, one more may stand in front. -/
theorem Due.blank (he : Patient e) (hc : isBlank c = true) (hd : Due ⟨stack, e⟩ cs) :
    Due ⟨stack, e⟩ (c :: cs) := by
  have hblank := isBlank_iff.mp hc
  cases he with
  | value => exact ValueDue.blank hc hd
  | firstItem =>
    rcases hd with hd | ⟨items, st, rest, hst, hb, h⟩
    · exact .inl (ValueDue.blank hc hd)
    · exact .inr ⟨items, st, rest, hst, .cons hblank hb, h⟩
  | firstKey =>
    rcases hd with hd | ⟨fields, st, rest, hst, hb, h⟩
    · exact .inl (KeyDue.blank hc hd)
    · exact .inr ⟨fields, st, rest, hst, .cons hblank hb, h⟩
  | key => exact KeyDue.blank hc hd
  | colon =>
    obtain ⟨cs₁, hb, hv⟩ := hd
    exact ⟨cs₁, .cons hblank hb, hv⟩
  | next v => exact Closes.blank hc hd

theorem ValueDue.of_written (h : Written t cs rest) (hc : Closes stack rest) : ValueDue stack cs :=
  ⟨cs, t, rest, .nil cs, h, hc⟩

theorem ValueDue.items {acc : List Value} (h : ValueDue (.array acc :: stack) cs) :
    ∃ items rest, WrittenItems items cs rest ∧ Closes stack rest := by
  obtain ⟨cs₁, t, _, hb, ht, hc⟩ := h
  cases hc with
  | @lastItem _ _ _ rest ha h => exact ⟨[t], rest, .last hb ht ha, h⟩
  | @nextItem _ _ items _ _ rest ha hs h => exact ⟨t :: items, rest, .cons hb ht ha hs, h⟩

theorem letters_ofList {s : List Char} (h : Letters s cs rest) :
    Letters (String.ofList s).toList cs rest := by
  rwa [String.toList_ofList]

theorem KeyDue.entries {fields : Fields} (h : KeyDue (.object fields :: stack) cs) :
    ∃ entries rest, WrittenEntries entries cs rest ∧ Closes stack rest := by
  obtain ⟨cs₁, hb, h⟩ := h
  obtain ⟨s, cs₂, hs, h⟩ := h [] .none
  have hk := letters_ofList hs
  obtain _ | ⟨cs₃, hc, cs₄, t, cs₅, hv, ht, h⟩ := h
  cases h with
  | @lastEntry _ _ _ _ rest ha h => exact ⟨[(_, t)], rest, .last hb hk hc hv ht ha, h⟩
  | @nextEntry _ _ entries _ _ _ rest ha hs h =>
    exact ⟨(_, t) :: entries, rest, .cons hb hk hc hv ht ha hs, h⟩

/-! ## One character back -/

theorem numeral_of_number? (h : number? written = some v) : ∃ l, Numeral l written.reverse := by
  unfold number? at h
  simp only [Option.bind_eq_bind, Option.bind_eq_some_iff] at h
  obtain ⟨l, hl, _⟩ := h
  exact ⟨l, ofChars?_eq_some_iff.mp hl⟩

theorem eq_of_opened {r r' : Reader} {o : Open} (h : r.opened o e = some r') :
    r' = ⟨o :: r.stack, e⟩ := by
  unfold opened at h
  split at h
  · exact (Option.some.inj h).symm
  · cases h

section

variable {r' : Reader}

/-- The first character of a value, or a blank in front of it. -/
theorem due_of_feedValue (h : feedValue ⟨stack, e⟩ c = some r') (hd : Due r' cs) :
    isBlank c = true ∧ r' = ⟨stack, e⟩ ∨ ValueDue stack (c :: cs) := by
  unfold feedValue at h
  split at h
  · cases eq_of_opened h
    right
    rcases hd with hd | ⟨acc, st, rest, hst, hb, hc⟩
    · obtain ⟨items, rest, hs, hc⟩ := ValueDue.items hd
      exact .of_written (.array hs) hc
    · cases hst
      exact .of_written (.emptyArray hb) hc
  · cases eq_of_opened h
    right
    rcases hd with hd | ⟨acc, st, rest, hst, hb, hc⟩
    · obtain ⟨entries, rest, hs, hc⟩ := KeyDue.entries hd
      exact .of_written (.object hs) hc
    · cases hst
      exact .of_written (.emptyObject hb) hc
  · cases h
    obtain ⟨s, rest, hs, hc⟩ := hd [] .none
    cases hc with
    | value hc => exact .inr (.of_written (.string (letters_ofList hs)) hc)
  · cases h
    obtain ⟨rest, rfl, hc⟩ := hd
    exact .inr (.of_written .isTrue hc)
  · cases h
    obtain ⟨rest, rfl, hc⟩ := hd
    exact .inr (.of_written .isFalse hc)
  · cases h
    obtain ⟨rest, rfl, hc⟩ := hd
    exact .inr (.of_written .null hc)
  · split at h
    · cases h
      obtain ⟨ds, rest, l, rfl, hl, hc⟩ := hd
      exact .inr (.of_written (.number hl) hc)
    · split at h
      · rename_i hblank
        cases h
        exact .inl ⟨hblank, rfl⟩
      · cases h

/-- The character behind a value, of which nothing but the stack matters to the reader. -/
theorem closes_of_feedNext (h : feedNext ⟨stack, e⟩ v c = some r') (hd : Due r' cs) :
    Closes stack (c :: cs) := by
  unfold feedNext at h
  split at h
  · rename_i hblank
    cases h
    exact Closes.blank hblank hd
  · simp only at h
    split at h
    · split at h
      · rename_i hc
        subst hc
        cases h
        obtain ⟨items, rest, hs, hc⟩ := ValueDue.items hd
        exact .nextItem (.nil _) hs hc
      · split at h
        · rename_i hc
          subst hc
          cases h
          exact .lastItem (.nil _) hd
        · cases h
    · split at h
      · rename_i hc
        subst hc
        cases h
        obtain ⟨entries, rest, hs, hc⟩ := KeyDue.entries hd
        exact .nextEntry (.nil _) hs hc
      · split at h
        · rename_i hc
          subst hc
          cases h
          exact .lastEntry (.nil _) hd
        · cases h
    · cases h

theorem stringDue_of_inString? {isKey : Bool} {escape : Escape}
    (hquote : escape = .none → c ≠ '"')
    (h : (inString? written escape c).map
      (fun u => (⟨stack, .string isKey u.1 u.2⟩ : Reader)) = some r') (hd : Due r' cs) :
    StringDue stack isKey escape (c :: cs) := by
  obtain ⟨⟨written', escape'⟩, hu, rfl⟩ := Option.map_eq_some_iff.mp h
  intro pre hpre
  rcases taken_of_inString? hpre hquote hu with ⟨rfl, d, hletter⟩ | htaken
  · obtain ⟨s, rest, hs, hend⟩ := hd [] .none
    exact ⟨d :: s, rest, .cons (hletter cs) hs, hend⟩
  · obtain ⟨s, rest, hs, hend⟩ := hd _ htaken
    rw [List.append_assoc] at hs
    exact ⟨s, rest, hs, hend⟩

theorem stringEnds_of_closeString {isKey : Bool}
    (h : closeString ⟨stack, e⟩ isKey written = some r') (hd : Due r' cs) :
    StringEnds stack isKey cs := by
  unfold closeString at h
  cases isKey with
  | true =>
    simp only [if_true] at h
    split at h
    · cases h
      exact .key hd
    · cases h
  | false =>
    cases h
    exact .value hd

/-- The quote in front of a key, or a blank in front of that. -/
theorem due_of_feedKey (h : (if c = '"' then some ⟨stack, .string true [] .none⟩
      else if isBlank c then some ⟨stack, e⟩ else none) = some r') (hd : Due r' cs) :
    isBlank c = true ∧ r' = ⟨stack, e⟩ ∨ KeyDue stack (c :: cs) := by
  split at h
  · rename_i hc
    subst hc
    cases h
    exact .inr ⟨cs, .nil _, hd⟩
  · split at h
    · rename_i hblank
      cases h
      exact .inl ⟨hblank, rfl⟩
    · cases h

theorem due_of_firstItem (h : feed ⟨stack, .firstItem⟩ c = some r') (hd : Due r' cs) :
    Due ⟨stack, .firstItem⟩ (c :: cs) := by
  simp only [feed] at h
  split at h
  · rename_i hc
    subst hc
    split at h
    · cases h
      exact .inr ⟨_, _, cs, rfl, .nil _, hd⟩
    · cases h
  · rcases due_of_feedValue h hd with ⟨hblank, rfl⟩ | hd
    · exact Due.blank .firstItem hblank hd
    · exact .inl hd

theorem due_of_firstKey (h : feed ⟨stack, .firstKey⟩ c = some r') (hd : Due r' cs) :
    Due ⟨stack, .firstKey⟩ (c :: cs) := by
  simp only [feed] at h
  split at h
  · rename_i hc
    subst hc
    split at h
    · cases h
      exact .inr ⟨_, _, cs, rfl, .nil _, hd⟩
    · cases h
  · rcases due_of_feedKey h hd with ⟨hblank, rfl⟩ | hd
    · exact Due.blank .firstKey hblank hd
    · exact .inl hd

theorem due_of_colon (h : feed ⟨stack, .colon⟩ c = some r') (hd : Due r' cs) :
    Due ⟨stack, .colon⟩ (c :: cs) := by
  simp only [feed] at h
  split at h
  · rename_i hc
    subst hc
    cases h
    exact ⟨cs, .nil _, hd⟩
  · split at h
    · rename_i hblank
      cases h
      exact Due.blank .colon hblank hd
    · cases h

theorem due_of_word {ds : List Char} (h : feed ⟨stack, .word ds v⟩ c = some r') (hd : Due r' cs) :
    Due ⟨stack, .word ds v⟩ (c :: cs) := by
  cases ds with
  | nil => exact ⟨_, rfl, closes_of_feedNext h hd⟩
  | cons d ds =>
    simp only [feed] at h
    split at h
    · rename_i hc
      subst hc
      cases h
      cases ds with
      | nil => exact ⟨cs, rfl, hd⟩
      | cons =>
        obtain ⟨rest, rfl, hc⟩ := hd
        exact ⟨rest, rfl, hc⟩
    · cases h

theorem due_of_number (h : feed ⟨stack, .number written⟩ c = some r') (hd : Due r' cs) :
    Due ⟨stack, .number written⟩ (c :: cs) := by
  simp only [feed] at h
  split at h
  · cases h
    obtain ⟨ds, rest, l, rfl, hl, hc⟩ := hd
    rw [List.reverse_cons, List.append_assoc] at hl
    exact ⟨c :: ds, rest, l, rfl, hl, hc⟩
  · -- The number has ended, and the character is the one behind it.
    simp only [Option.bind_eq_bind, Option.bind_eq_some_iff] at h
    obtain ⟨v, hv, h⟩ := h
    obtain ⟨l, hl⟩ := numeral_of_number? hv
    exact ⟨[], c :: cs, l, rfl, (List.append_nil _).symm ▸ hl, closes_of_feedNext h hd⟩

theorem due_of_string {isKey : Bool} {escape : Escape}
    (h : feed ⟨stack, .string isKey written escape⟩ c = some r') (hd : Due r' cs) :
    Due ⟨stack, .string isKey written escape⟩ (c :: cs) := by
  simp only [feed] at h
  split at h
  · split at h
    · rename_i hc
      subst hc
      intro pre hpre
      cases hpre
      exact ⟨[], cs, .nil, stringEnds_of_closeString h hd⟩
    · rename_i hquote
      exact stringDue_of_inString? (fun _ => hquote) h hd
  · rename_i hescape
    exact stringDue_of_inString? (fun hnone => absurd hnone hescape) h hd

theorem due_of_feed {r : Reader} (h : feed r c = some r') (hd : Due r' cs) : Due r (c :: cs) := by
  obtain ⟨stack, e⟩ := r
  cases e with
  | value =>
    rcases due_of_feedValue h hd with ⟨hblank, rfl⟩ | hd
    · exact Due.blank .value hblank hd
    · exact hd
  | firstItem => exact due_of_firstItem h hd
  | firstKey => exact due_of_firstKey h hd
  | key =>
    rcases due_of_feedKey h hd with ⟨hblank, rfl⟩ | hd
    · exact Due.blank .key hblank hd
    · exact hd
  | colon => exact due_of_colon h hd
  | next v => exact closes_of_feedNext h hd
  | word ds v => exact due_of_word h hd
  | number written => exact due_of_number h hd
  | string isKey written escape => exact due_of_string h hd

end

/-! ## The whole text -/

theorem due_of_finish? {r : Reader} (h : finish? r = some v) : Due r [] := by
  unfold finish? at h
  split at h
  · rename_i hst he
    unfold Due
    rw [hst, he]
    exact .done (.nil _)
  · rename_i hst he
    obtain ⟨l, hl⟩ := numeral_of_number? h
    unfold Due
    rw [hst, he]
    exact ⟨[], [], l, rfl, (List.append_nil _).symm ▸ hl, .done (.nil _)⟩
  · cases h

theorem due_of_run {r : Reader} (h : run r cs = some v) : Due r cs := by
  induction cs generalizing r with
  | nil => exact due_of_finish? h
  | cons c cs ih =>
    unfold run at h
    rw [feedAll_cons, Option.bind_assoc, Option.bind_eq_some_iff] at h
    obtain ⟨r', hfeed, h⟩ := h
    exact due_of_feed hfeed (ih h)

end Reader

open Reader

/-- What is read is a document. -/
theorem Value.document_of_ofText? {text : String} {v : Value} (h : ofText? text = some v) :
    ∃ t, Document t text ∧ t.read? maxDepth = some v := by
  have hrun : run start text.toList = some v := h
  obtain ⟨cs, t, rest, hb, ht, hc⟩ := due_of_run hrun
  cases hc with
  | done ha =>
    have hdocument : Document t text := ⟨cs, rest, hb, ht, ha⟩
    exact ⟨t, hdocument, (ofText?_of_document hdocument).symm.trans h⟩

/-- The bytes of a document. -/
def Grammar.Describes (payload : ByteArray) (t : Tree) : Prop :=
  ∃ text : String, text.toUTF8 = payload ∧ Document t text

end LivePlayback.Json
