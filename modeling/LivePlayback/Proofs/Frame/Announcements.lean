import LivePlayback.Proofs.Frame.Grammar
import Mathlib.Data.List.DropRight

/-!
# What announcements name

An announcement names the codecs that stand between its commas, without the blanks around them. One
that is not blank is accepted, and names something unless there is nothing in it but commas and
blanks.
-/

namespace LivePlayback
set_option autoImplicit false

namespace Text

variable {sep c : Char} {cs core : List Char} {parts : List (List Char)}

/-! ## Splitting -/

theorem splitAt_eq_splitOn (sep : Char) (cs : List Char) : splitAt sep cs = cs.splitOn sep := by
  induction cs with
  | nil => rfl
  | cons c cs ih =>
    rw [List.splitOn_eq_splitOnP] at ih ⊢
    rw [splitAt, ih, List.splitOnP_cons_eq_if_modifyHead]
    cases hparts : cs.splitOnP (· == sep) with
    | nil => exact absurd hparts (List.splitOnP_ne_nil _ cs)
    | cons part parts => by_cases hc : c = sep <;> simp [hc]

/-- The parts have all that is no separator between them. -/
theorem exists_part_iff : (∃ part ∈ splitAt sep cs, c ∈ part) ↔ c ∈ cs ∧ c ≠ sep := by
  induction cs with
  | nil => simp [splitAt]
  | cons d cs ih =>
    have hcons : (∃ part ∈ splitAt sep (d :: cs), c ∈ part) ↔
        c = d ∧ d ≠ sep ∨ ∃ part ∈ splitAt sep cs, c ∈ part := by
      rw [splitAt]
      cases hparts : splitAt sep cs with
      | nil => exact absurd hparts (splitAt_ne_nil sep cs)
      | cons part parts => by_cases hd : d = sep <;> simp [hd, or_assoc]
    rw [hcons, ih, List.mem_cons]
    grind

theorem sep_not_mem_of_mem_splitAt {part : List Char} (h : part ∈ splitAt sep cs) : sep ∉ part := by
  intro hsep
  exact (exists_part_iff.mp ⟨part, h, hsep⟩).2 rfl

/-! ## Trimming -/

/-- What is left of a text without the blanks at both ends. -/
structure Trims (cs core : List Char) : Prop where
  around : ∃ before after, cs = before ++ core ++ after ∧ (∀ c ∈ before, isBlank c = true) ∧
    ∀ c ∈ after, isBlank c = true
  first : ∀ c, core.head? = some c → isBlank c = false
  last : ∀ c, core.getLast? = some c → isBlank c = false

theorem trims_trim (cs : List Char) : Trims cs (trim cs) := by
  have htrim : trim cs = (cs.dropWhile isBlank).rdropWhile isBlank := rfl
  have hlast : cs.dropWhile isBlank = trim cs ++ (cs.dropWhile isBlank).rtakeWhile isBlank :=
    List.rdropWhile_append_rtakeWhile.symm
  constructor
  case around =>
    refine ⟨cs.takeWhile isBlank, (cs.dropWhile isBlank).rtakeWhile isBlank, ?_, ?_, ?_⟩
    · rw [List.append_assoc, ← hlast, List.takeWhile_append_dropWhile]
    · intro c hc
      exact List.mem_takeWhile_imp hc
    · intro c hc
      exact List.mem_rtakeWhile_imp hc
  case first =>
    intro c hc
    -- The first character is not lost when the last ones are dropped.
    have hfirst : (cs.dropWhile isBlank).head? = some c := by
      rw [hlast, List.head?_append, hc]
      rfl
    have hnot := List.head?_dropWhile_not isBlank cs
    rwa [hfirst] at hnot
  case last =>
    intro c hc
    have hne : (cs.dropWhile isBlank).rdropWhile isBlank ≠ [] := by
      intro hnil
      rw [htrim, hnil] at hc
      cases hc
    have hnot := List.rdropWhile_last_not isBlank _ hne
    rw [htrim, List.getLast?_eq_some_getLast hne, Option.some.injEq] at hc
    rw [← hc]
    simpa using hnot

theorem dropWhile_of_first (h : ∀ c, cs.head? = some c → isBlank c = false) :
    cs.dropWhile isBlank = cs := by
  cases cs with
  | nil => rfl
  | cons c cs => exact List.dropWhile_cons_of_neg (by simp [h c rfl])

/-- Blanks are all that may be lost, so nothing else can be left. -/
theorem Trims.eq_trim (h : Trims cs core) : core = trim cs := by
  obtain ⟨before, after, rfl, hbefore, hafter⟩ := h.around
  rw [trim, trimLeft, trimLeft, List.append_assoc, List.dropWhile_append_of_pos hbefore]
  cases hcore : core with
  | nil =>
    have hnone : after.dropWhile isBlank = [] := List.dropWhile_eq_nil_iff.mpr hafter
    rw [List.nil_append, hnone]
    rfl
  | cons d rest =>
    rw [← hcore]
    have hfirst : (core ++ after).dropWhile isBlank = core ++ after := by
      apply dropWhile_of_first
      intro c hc
      apply h.first
      rwa [hcore] at hc ⊢
    have hlast : core.reverse.dropWhile isBlank = core.reverse := by
      apply dropWhile_of_first
      intro c hc
      apply h.last
      rwa [List.head?_reverse] at hc
    have hblank : ∀ c ∈ after.reverse, isBlank c = true := by simpa using hafter
    rw [hfirst, List.reverse_append, List.dropWhile_append_of_pos hblank, hlast,
      List.reverse_reverse]

theorem trims_iff : Trims cs core ↔ core = trim cs := by
  constructor
  · exact Trims.eq_trim
  · rintro rfl
    exact trims_trim cs

theorem trim_eq_nil_iff : trim cs = [] ↔ ∀ c ∈ cs, isBlank c = true := by
  rw [eq_comm, ← trims_iff]
  constructor
  · intro h c hc
    obtain ⟨before, after, rfl, hbefore, hafter⟩ := h.around
    rw [List.append_nil] at hc
    rcases List.mem_append.mp hc with hc | hc
    · exact hbefore c hc
    · exact hafter c hc
  · intro h
    refine ⟨⟨cs, [], by simp, h, by simp⟩, by simp, by simp⟩

/-! ## Names -/

/-- The names that stand between the separators of a text, in their order. -/
def Names (sep : Char) (cs : List Char) (names : List (List Char)) : Prop :=
  ∃ parts cores, [sep].intercalate parts = cs ∧ (∀ part ∈ parts, sep ∉ part) ∧
    List.Forall₂ Trims parts cores ∧ names = cores.filter fun core => !core.isEmpty

variable {names : List (List Char)}

theorem forall₂_trims_iff {cores : List (List Char)} :
    List.Forall₂ Trims parts cores ↔ cores = parts.map trim := by
  have htrims : Trims = fun part core => trim part = core := by
    funext part core
    exact propext (trims_iff.trans eq_comm)
  rw [htrims, ← List.forall₂_map_left_iff, List.forall₂_eq_eq_eq, eq_comm]

theorem names_trimmedParts (sep : Char) (cs : List Char) : Names sep cs (trimmedParts sep cs) := by
  refine ⟨splitAt sep cs, (splitAt sep cs).map trim, ?_, ?_, ?_, ?_⟩
  · rw [splitAt_eq_splitOn]
    exact List.intercalate_splitOn sep
  · intro part hpart
    exact sep_not_mem_of_mem_splitAt hpart
  · exact forall₂_trims_iff.mpr rfl
  · rfl

theorem Names.eq_trimmedParts (h : Names sep cs names) : names = trimmedParts sep cs := by
  obtain ⟨parts, cores, rfl, hsep, hcores, rfl⟩ := h
  rw [forall₂_trims_iff.mp hcores]
  cases hparts : parts with
  | nil => rfl
  | cons part rest =>
    have hsplit : splitAt sep ([sep].intercalate parts) = parts := by
      rw [splitAt_eq_splitOn]
      exact List.splitOn_intercalate sep hsep (by simp [hparts])
    rw [← hparts, trimmedParts, hsplit]

theorem names_iff : Names sep cs names ↔ names = trimmedParts sep cs := by
  constructor
  · exact Names.eq_trimmedParts
  · rintro rfl
    exact names_trimmedParts sep cs

theorem trimmedParts_eq_nil_iff :
    trimmedParts sep cs = [] ↔ ∀ c ∈ cs, c = sep ∨ isBlank c = true := by
  have hparts : trimmedParts sep cs = [] ↔
      ∀ part ∈ splitAt sep cs, ∀ c ∈ part, isBlank c = true := by
    simp [trimmedParts, trim_eq_nil_iff]
  rw [hparts]
  constructor
  · intro h c hc
    by_cases hsep : c = sep
    · exact .inl hsep
    · obtain ⟨part, hpart, hmem⟩ := exists_part_iff.mpr ⟨hc, hsep⟩
      exact .inr (h part hpart c hmem)
  · intro h part hpart c hc
    obtain ⟨hmem, hsep⟩ := exists_part_iff.mp ⟨part, hpart, hc⟩
    exact (h c hmem).resolve_left hsep

/-- A name is not empty, has no separator in it and no blanks around it. -/
structure IsName (sep : Char) (name : List Char) : Prop where
  ne_nil : name ≠ []
  whole : sep ∉ name
  trimmed : Trims name name

theorem isName_of_mem_trimmedParts {name : List Char} (h : name ∈ trimmedParts sep cs) :
    IsName sep name := by
  obtain ⟨hmem, hne⟩ := List.mem_filter.mp h
  obtain ⟨part, hpart, rfl⟩ := List.mem_map.mp hmem
  have htrims : Trims part (trim part) := trims_trim part
  refine ⟨by simpa using hne, ?_, ?_⟩
  · intro hsep
    obtain ⟨before, after, hpart', _⟩ := htrims.around
    apply sep_not_mem_of_mem_splitAt hpart
    rw [hpart']
    simp [hsep]
  · exact ⟨⟨[], [], by simp, by simp, by simp⟩, htrims.first, htrims.last⟩

end Text

namespace Codecs

open Text

variable {c : Codecs} {text : String}

theorem toList_names (c : Codecs) : c.names.map String.toList = trimmedParts ',' c.text.toList := by
  rw [names, List.map_map]
  have hid : String.toList ∘ String.ofList = id := by
    funext cs
    exact String.toList_ofList
  rw [hid, List.map_id]

theorem names_eq_nil_iff :
    c.names = [] ↔ ∀ x ∈ c.text.toList, x = ',' ∨ isBlank x = true := by
  rw [← trimmedParts_eq_nil_iff, ← toList_names, List.map_eq_nil_iff]

theorem exists_ofText_iff :
    (∃ c, ofText text = .ok c) ↔ ∃ x ∈ text.toList, isBlank x = false := by
  simp only [ofText_eq_ok_iff]
  exact Content.exists_codecs_iff

/-- What a text announces. -/
structure Announces (text : String) : Prop where
  /-- Whatever names codecs is accepted, and nothing else but commas with or without blanks. -/
  accepted : (∃ c, ofText text = .ok c) ↔ (∃ names, Names ',' text.toList names ∧ names ≠ []) ∨
    ',' ∈ text.toList ∧ ∀ x ∈ text.toList, x = ',' ∨ isBlank x = true
  refused : (∀ c, ofText text ≠ .ok c) → ofText text = .error blankFault
  /-- The codecs of an accepted text are those that it names. -/
  names : ∀ c, ofText text = .ok c → ∀ names, Names ',' text.toList names ↔
    names = c.names.map String.toList
  each : ∀ c, ofText text = .ok c → ∀ name ∈ c.names, IsName ',' name.toList
  /-- There is none only if there is nothing but commas and blanks, -/
  unnamed : ∀ c, ofText text = .ok c →
    (c.names = [] ↔ ∀ x ∈ text.toList, x = ',' ∨ isBlank x = true)
  /-- and frames announce nothing else. -/
  announced : ∀ f c, Content.ofFrame f = .ok (.codecs c) ∧ c.text = text ↔
    f = Content.tagged 0x09 text.toUTF8 ∧ ofText text = .ok c

theorem text_announces (text : String) : Announces text where
  accepted := by
    rw [exists_ofText_iff]
    simp only [names_iff, exists_eq_left, ne_eq, trimmedParts_eq_nil_iff]
    constructor
    · rintro ⟨x, hx, hvisible⟩
      by_cases hall : ∀ x ∈ text.toList, x = ',' ∨ isBlank x = true
      · refine .inr ⟨?_, hall⟩
        have hcomma := (hall x hx).resolve_right (by simp [hvisible])
        rwa [← hcomma]
      · exact .inl hall
    · rintro (hnot | ⟨hcomma, _⟩)
      · by_contra hnone
        apply hnot
        intro x hx
        by_contra hother
        exact hnone ⟨x, hx, by simpa using (not_or.mp hother).2⟩
      · exact ⟨',', hcomma, by decide⟩
  refused := by
    intro h
    cases hc : ofText text with
    | error e => rw [Content.fault_of_ofText hc]
    | ok c => exact absurd hc (h c)
  names := by
    intro c hc names
    rw [names_iff, toList_names, ofText_eq_ok_iff.mp hc]
  each := by
    intro c hc name hname
    apply isName_of_mem_trimmedParts
    rw [← toList_names]
    exact List.mem_map_of_mem hname
  unnamed := by
    intro c hc
    rw [names_eq_nil_iff, ofText_eq_ok_iff.mp hc]
  announced := by
    intro f c
    rw [Content.ofFrame_eq_ok_iff, ofText_eq_ok_iff]
    constructor
    · rintro ⟨hmeans, rfl⟩
      cases hmeans
      exact ⟨rfl, rfl⟩
    · rintro ⟨rfl, rfl⟩
      exact ⟨.codecs c, rfl⟩

/-- A list of commas is accepted, although there is nothing to ask a surface about. -/
example : (ofText ", ,").map names = .ok [] := by rfl

end Codecs
end LivePlayback
