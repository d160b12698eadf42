import LivePlayback.Entries
import Mathlib.Data.List.Nodup
import Mathlib.Data.String.Basic

/-!
# Sorted entries as maps

Sorted entries are the same if they have the same value for every key. Entries in any order can be
collected one by one; of those with the same key the last one stays.
-/

namespace LivePlayback.Entries
set_option autoImplicit false

variable {α : Type} {key k : String} {value v : α} {es es' : List (String × α)}

theorem mem_of_find? (h : find? key es = some v) : (key, v) ∈ es := by
  induction es with
  | nil => cases h
  | cons e es ih =>
    obtain ⟨k, w⟩ := e
    simp only [find?] at h
    split at h
    · rename_i hk
      cases h
      rw [hk]
      exact List.mem_cons_self
    · exact List.mem_cons_of_mem _ (ih h)

theorem find?_append : find? key (es ++ es') = (find? key es).or (find? key es') := by
  induction es with
  | nil => rfl
  | cons e es ih =>
    obtain ⟨k, w⟩ := e
    simp only [List.cons_append, find?]
    split
    · rfl
    · exact ih

/-- No key is used twice. -/
def Distinct (es : List (String × α)) : Prop := (es.map Prod.fst).Nodup

theorem Distinct.find?_of_mem (h : Distinct es) (hm : (key, v) ∈ es) : find? key es = some v := by
  induction es with
  | nil => cases hm
  | cons e es ih =>
    obtain ⟨k, w⟩ := e
    obtain ⟨hnot, h⟩ := List.nodup_cons.mp h
    rcases List.mem_cons.mp hm with heq | hrest
    · cases heq
      simp [find?]
    · have hne : key ≠ k := by
        rintro rfl
        exact hnot (List.mem_map.mpr ⟨(key, v), hrest, rfl⟩)
      rw [find?, if_neg hne]
      exact ih h hrest

theorem Distinct.find?_eq_some_iff (h : Distinct es) : find? key es = some v ↔ (key, v) ∈ es :=
  ⟨mem_of_find?, h.find?_of_mem⟩

theorem Distinct.find?_reverse (h : Distinct es) : find? key es.reverse = find? key es := by
  have hr : Distinct es.reverse := by
    unfold Distinct
    rw [List.map_reverse]
    exact List.nodup_reverse.mpr h
  apply Option.ext
  intro v
  rw [hr.find?_eq_some_iff, h.find?_eq_some_iff, List.mem_reverse]

theorem Distinct.find?_filter (h : Distinct es) (p : String × α → Bool) :
    find? key (es.filter p) = (find? key es).filter fun v => p (key, v) := by
  have hf : Distinct (es.filter p) := h.sublist (List.filter_sublist.map Prod.fst)
  apply Option.ext
  intro v
  rw [hf.find?_eq_some_iff, List.mem_filter, Option.filter_eq_some_iff, h.find?_eq_some_iff]

theorem Distinct.filter_eq_self (h : Distinct es) {p : α → Bool}
    (hp : ∀ v, find? key es = some v → p v = true) :
    es.filter (fun e => e.1 != key || p e.2) = es := by
  refine List.filter_eq_self.mpr fun e he => ?_
  by_cases hk : e.1 = key
  · have hv : find? key es = some e.2 := h.find?_of_mem (hk ▸ he)
    simp [hp _ hv]
  · simp [hk]

theorem Distinct.filter_eq_erase (h : Distinct es) {p : α → Bool}
    (hp : ∀ v, find? key es = some v → p v = false) :
    es.filter (fun e => e.1 != key || p e.2) = erase key es := by
  refine List.filter_congr fun e he => ?_
  by_cases hk : e.1 = key
  · have hv : find? key es = some e.2 := h.find?_of_mem (hk ▸ he)
    simp [hp _ hv]
  · simp [hk]

/-! ## Sorted entries -/

theorem Sorted.distinct (h : Sorted es) : Distinct es :=
  List.pairwise_map.mpr (h.imp fun hlt => ne_of_lt hlt)

theorem mem_insert {e : String × α} (h : e ∈ insert key value es) : e = (key, value) ∨ e ∈ es := by
  induction es with
  | nil => exact .inl (List.mem_singleton.mp h)
  | cons f es ih =>
    obtain ⟨k, w⟩ := f
    simp only [insert] at h
    split at h
    · exact List.mem_cons.mp h
    · split at h
      · exact (List.mem_cons.mp h).imp_right (List.mem_cons_of_mem _)
      · rcases List.mem_cons.mp h with h | h
        · exact .inr (h ▸ List.mem_cons_self)
        · exact (ih h).imp_right (List.mem_cons_of_mem _)

theorem Sorted.insert (h : Sorted es) : Sorted (insert key value es) := by
  induction es with
  | nil => exact List.pairwise_singleton ..
  | cons e es ih =>
    obtain ⟨k, w⟩ := e
    obtain ⟨hfirst, hrest⟩ := List.pairwise_cons.mp h
    simp only [Entries.insert]
    split
    · rename_i hlt
      refine List.pairwise_cons.mpr ⟨fun e he => ?_, h⟩
      rcases List.mem_cons.mp he with rfl | he
      · exact hlt
      · exact lt_trans hlt (hfirst e he)
    · rename_i hge
      split
      · rename_i heq
        subst heq
        exact List.pairwise_cons.mpr ⟨hfirst, hrest⟩
      · rename_i hne
        refine List.pairwise_cons.mpr ⟨fun e he => ?_, ih hrest⟩
        rcases mem_insert he with rfl | he
        · exact lt_of_le_of_ne (not_lt.mp hge) (Ne.symm hne)
        · exact hfirst e he

theorem Sorted.ext (h : Sorted es) (h' : Sorted es') (hf : ∀ k, find? k es = find? k es') :
    es = es' := by
  -- With distinct keys to look up is to be in the list, and an order leaves but one permutation.
  have hmem (e : String × α) : e ∈ es ↔ e ∈ es' := by
    rw [← h.distinct.find?_eq_some_iff, hf, h'.distinct.find?_eq_some_iff]
  have hperm : es.Perm es' :=
    (List.perm_ext_iff_of_nodup (h.distinct.of_map _) (h'.distinct.of_map _)).mpr hmem
  refine hperm.eq_of_pairwise (fun a b _ _ hlt hgt => ?_) h h'
  exact absurd hgt (lt_asymm hlt)

/-! ## Collecting entries -/

/-- Adds entries one by one, the first one first. -/
def collect (es : List (String × α)) : List (String × α) :=
  es.foldl (fun acc e => insert e.1 e.2 acc) []

theorem find?_foldl_insert (acc : List (String × α)) :
    find? key (es.foldl (fun acc e => insert e.1 e.2 acc) acc) =
      (find? key es.reverse).or (find? key acc) := by
  induction es generalizing acc with
  | nil => rfl
  | cons e es ih =>
    rw [List.foldl_cons, ih, List.reverse_cons, find?_append, Option.or_assoc]
    congr 1
    by_cases hk : key = e.1
    · subst hk
      simp [find?_insert_self, find?]
    · simp [find?_insert_of_ne hk, find?, hk]

theorem find?_collect : find? key (collect es) = find? key es.reverse := by
  rw [collect, find?_foldl_insert, find?_nil, Option.or_none]

theorem sorted_foldl_insert (acc : List (String × α)) (h : Sorted acc) :
    Sorted (es.foldl (fun acc e => insert e.1 e.2 acc) acc) := by
  induction es generalizing acc with
  | nil => exact h
  | cons e es ih => exact ih _ h.insert

theorem sorted_collect : Sorted (collect es) := sorted_foldl_insert [] .nil

theorem Sorted.collect_eq (h : Sorted es) : collect es = es := by
  refine sorted_collect.ext h fun k => ?_
  rw [find?_collect, h.distinct.find?_reverse]

end LivePlayback.Entries
