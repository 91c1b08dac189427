import Mathlib.Data.List.Basic
import Mathlib.Data.List.Induction
import SchemaGraph.Distinct
import SchemaGraph.Graph.TypeEdit

/-! Directives merged into a list of directives. Every name that is given has one place, which is
the first among those that are there or else one at the end, and the last directive that is given
under the name stands in it. All other places are left alone. -/

namespace SchemaGraph

namespace Annotation

def lastNamed? (ds : List Annotation) (name : String) : Option Annotation :=
  ds.reverse.find? fun d => d.name = name

/-- The names in their places after a merge: new ones come last, in the order they are given. -/
def mergedNames (existing updates : List Annotation) : List String :=
  existing.map Annotation.name ++
    (updates.map Annotation.name).eraseDups.filter fun name => name ∉ existing.map Annotation.name

variable {es ds : List Annotation} {d : Annotation} {name : String}

theorem lastNamed?_concat (ds : List Annotation) (d : Annotation) (name : String) :
    lastNamed? (ds ++ [d]) name = if d.name = name then some d else lastNamed? ds name := by
  rw [lastNamed?, List.reverse_append, List.reverse_singleton, List.singleton_append,
    List.find?_cons]
  by_cases h : d.name = name <;> simp [h, lastNamed?]

theorem lastNamed?_eq_none_iff : lastNamed? ds name = none ↔ name ∉ ds.map Annotation.name := by
  simp [lastNamed?]

theorem name_of_lastNamed? (h : lastNamed? ds name = some d) : d.name = name := by
  rw [lastNamed?] at h
  simpa using List.find?_some h

theorem exists_lastNamed? (h : d ∈ ds) : ∃ x, lastNamed? ds d.name = some x := by
  refine Option.ne_none_iff_exists'.1 fun hnone => ?_
  exact lastNamed?_eq_none_iff.1 hnone (List.mem_map_of_mem h)

theorem mem_mergedNames : name ∈ mergedNames es ds ↔
    name ∈ es.map Annotation.name ∨ name ∈ ds.map Annotation.name := by
  rw [mergedNames, List.mem_append, List.mem_filter, List.mem_eraseDups, decide_eq_true_eq]
  tauto

theorem mergedNames_concat : mergedNames es (ds ++ [d]) =
    if d.name ∈ mergedNames es ds then mergedNames es ds else mergedNames es ds ++ [d.name] := by
  have hnames : (ds ++ [d]).map Annotation.name = ds.map Annotation.name ++ [d.name] :=
    List.map_append
  have hgiven : (ds.map Annotation.name).eraseDups.contains d.name = true ↔
      d.name ∈ ds.map Annotation.name := List.contains_iff_mem.trans List.mem_eraseDups
  simp only [mem_mergedNames]
  rw [mergedNames, mergedNames, hnames, eraseDups_concat]
  by_cases hds : d.name ∈ ds.map Annotation.name
  · rw [if_pos (hgiven.2 hds), if_pos (.inr hds)]
  · rw [if_neg (hgiven.not.2 hds), List.filter_append]
    by_cases hes : d.name ∈ es.map Annotation.name
    · rw [if_pos (.inl hes)]
      simpa using hes
    · rw [if_neg (not_or_intro hes hds), List.append_assoc]
      simpa using hes

theorem idxOf_mergedNames_concat (h : name ∈ mergedNames es ds ∨ name = d.name) :
    (mergedNames es (ds ++ [d])).idxOf name = (mergedNames es ds).idxOf name := by
  rw [mergedNames_concat]
  split
  · rfl
  · rename_i hnew
    rcases h with hmem | rfl
    · exact List.idxOf_append_of_mem hmem
    · rw [List.idxOf_append_of_notMem hnew, List.idxOf_cons_self, List.idxOf_eq_length hnew]
      rfl

/-! One directive -/

theorem map_name_mergeOne (d : Annotation) (es : List Annotation) :
    (mergeOne d es).map Annotation.name =
      if d.name ∈ es.map Annotation.name then es.map Annotation.name
      else es.map Annotation.name ++ [d.name] := by
  induction es with
  | nil => rfl
  | cons e es ih =>
    by_cases h : e.name = d.name
    · simp [h, mergeOne]
    · have h' : ¬d.name = e.name := fun heq => h heq.symm
      simp only [h, mergeOne, if_false, List.map_cons, ih, List.mem_cons, h', false_or]
      split <;> rfl

theorem getElem?_mergeOne (d : Annotation) (es : List Annotation) (i : Nat) :
    (mergeOne d es)[i]? =
      if (es.map Annotation.name).idxOf d.name = i then some d else es[i]? := by
  induction es generalizing i with
  | nil => cases i <;> simp [mergeOne]
  | cons e es ih =>
    rw [List.map_cons, List.idxOf_cons, mergeOne]
    by_cases h : e.name = d.name
    · cases i <;> simp [h]
    · have h' : (e.name == d.name) = false := beq_eq_false_iff_ne.2 h
      cases i <;> simp [h, h', ih]

/-! All directives that are given -/

def mergeEach (es ds : List Annotation) : List Annotation :=
  ds.foldl (fun es d => mergeOne d es) es

theorem mergeEach_concat (es ds : List Annotation) (d : Annotation) :
    mergeEach es (ds ++ [d]) = mergeOne d (mergeEach es ds) := by
  rw [mergeEach, List.foldl_append]
  rfl

theorem map_name_mergeEach (es ds : List Annotation) :
    (mergeEach es ds).map Annotation.name = mergedNames es ds := by
  induction ds using List.reverseRecOn with
  | nil => exact (List.append_nil _).symm
  | append_singleton ds d ih =>
    rw [mergeEach_concat, map_name_mergeOne, ih, mergedNames_concat]

theorem getElem?_mergeEach_concat (es ds : List Annotation) (d : Annotation) (i : Nat) :
    (mergeEach es (ds ++ [d]))[i]? =
      if (mergedNames es ds).idxOf d.name = i then some d else (mergeEach es ds)[i]? := by
  rw [mergeEach_concat, getElem?_mergeOne, map_name_mergeEach]

theorem getElem?_mergeEach_of_lastNamed? {x : Annotation} (h : lastNamed? ds name = some x) :
    (mergeEach es ds)[(mergedNames es ds).idxOf name]? = some x := by
  induction ds using List.reverseRecOn with
  | nil => cases h
  | append_singleton ds d ih =>
    rw [lastNamed?_concat] at h
    rw [getElem?_mergeEach_concat]
    split at h
    · rename_i hname
      rw [idxOf_mergedNames_concat (.inr hname.symm), hname, if_pos rfl]
      exact h
    · rename_i hne
      have hmem : name ∈ mergedNames es ds := by
        refine mem_mergedNames.2 (.inr ?_)
        by_contra hnone
        rw [lastNamed?_eq_none_iff.2 hnone] at h
        cases h
      have hidx : (mergedNames es ds).idxOf d.name ≠ (mergedNames es ds).idxOf name :=
        fun heq => hne ((List.idxOf_inj hmem).1 heq.symm).symm
      rw [idxOf_mergedNames_concat (.inl hmem), if_neg hidx]
      exact ih h

theorem getElem?_mergeEach_of_ne {i : Nat}
    (h : ∀ d ∈ ds, (mergedNames es ds).idxOf d.name ≠ i) : (mergeEach es ds)[i]? = es[i]? := by
  induction ds using List.reverseRecOn with
  | nil => rfl
  | append_singleton ds d ih =>
    have hlast := h d List.mem_concat_self
    rw [idxOf_mergedNames_concat (.inr rfl)] at hlast
    rw [getElem?_mergeEach_concat, if_neg hlast]
    refine ih fun x hx => ?_
    have hmem : x.name ∈ mergedNames es ds := mem_mergedNames.2 (.inr (List.mem_map_of_mem hx))
    rw [← idxOf_mergedNames_concat (.inl hmem)]
    exact h x (List.mem_append_left _ hx)

theorem mergedNames_mergeEach (es ds : List Annotation) :
    mergedNames (mergeEach es ds) ds = mergedNames es ds := by
  rw [mergedNames, map_name_mergeEach, List.filter_eq_nil_iff.2, List.append_nil]
  intro name hname
  have hmem : name ∈ mergedNames es ds := mem_mergedNames.2 (.inr (List.mem_eraseDups.1 hname))
  simpa using hmem

/-- Every name that is given has its place already, and its last directive stands there. -/
theorem mergeEach_mergeEach (es ds : List Annotation) :
    mergeEach (mergeEach es ds) ds = mergeEach es ds := by
  refine List.ext_getElem? fun i => ?_
  by_cases h : ∃ d ∈ ds, (mergedNames es ds).idxOf d.name = i
  · obtain ⟨d, hd, rfl⟩ := h
    obtain ⟨x, hx⟩ := exists_lastNamed? hd
    have hagain : (mergeEach (mergeEach es ds) ds)[(mergedNames (mergeEach es ds) ds).idxOf
        d.name]? = some x := getElem?_mergeEach_of_lastNamed? hx
    rw [mergedNames_mergeEach] at hagain
    rw [hagain, getElem?_mergeEach_of_lastNamed? hx]
  · refine getElem?_mergeEach_of_ne fun d hd hi => h ⟨d, hd, ?_⟩
    rwa [mergedNames_mergeEach] at hi

/-! Places -/

section Place

variable {i : Nat} {e : Annotation} (he : es[i]? = some e)
include he

theorem mergedNames_split (ds : List Annotation) : ∃ rest, mergedNames es ds =
    (es.take i).map Annotation.name ++ e.name :: rest ∧
      ((es.take i).map Annotation.name).length = i := by
  obtain ⟨hi, rfl⟩ := List.getElem?_eq_some_iff.1 he
  have hsplit : es.map Annotation.name = (es.take i).map Annotation.name ++
      es[i].name :: (es.drop (i + 1)).map Annotation.name := by
    rw [← List.map_cons, ← List.drop_eq_getElem_cons hi, ← List.map_append, List.take_append_drop]
  rw [mergedNames, hsplit, List.append_assoc]
  exact ⟨_, rfl, by simp; omega⟩

theorem idxOf_mergedNames_eq_iff (hmem : name ∈ mergedNames es ds) :
    (mergedNames es ds).idxOf name = i ↔ e.name = name ∧ ∀ x ∈ es.take i, x.name ≠ name := by
  obtain ⟨rest, hsplit, hlength⟩ := mergedNames_split he ds
  have hearlier : name ∉ (es.take i).map Annotation.name ↔ ∀ x ∈ es.take i, x.name ≠ name := by
    simp only [List.mem_map, not_exists, not_and, ne_eq]
  rw [← hearlier]
  constructor
  · intro hidx
    have hlater : name ∉ (es.take i).map Annotation.name := by
      intro hbefore
      have hlt := List.idxOf_lt_length_iff.2 hbefore
      rw [hsplit, List.idxOf_append_of_mem hbefore] at hidx
      omega
    have hname := List.getElem?_idxOf hmem
    rw [hidx, hsplit, List.getElem?_append_right (Nat.le_of_eq hlength), hlength,
      Nat.sub_self] at hname
    exact ⟨Option.some.inj hname, hlater⟩
  · rintro ⟨rfl, hlater⟩
    rw [hsplit, List.idxOf_append_of_notMem hlater, List.idxOf_cons_self, hlength]
    rfl

end Place

structure Merges (existing updates merged : List Annotation) : Prop where
  replaced : ∀ i e d, existing[i]? = some e → (∀ x ∈ existing.take i, x.name ≠ e.name) →
    lastNamed? updates e.name = some d → merged[i]? = some d
  kept : ∀ i e, existing[i]? = some e →
    ((∀ d ∈ updates, d.name ≠ e.name) ∨ ∃ x ∈ existing.take i, x.name = e.name) →
      merged[i]? = some e
  appended : (merged.drop existing.length).map Annotation.name =
    (updates.map Annotation.name).eraseDups.filter fun name =>
      name ∉ existing.map Annotation.name
  appended_last : ∀ d ∈ merged.drop existing.length, lastNamed? updates d.name = some d

theorem kept_mergeEach {i : Nat} {e : Annotation} (he : es[i]? = some e)
    (hkept : (∀ d ∈ ds, d.name ≠ e.name) ∨ ∃ x ∈ es.take i, x.name = e.name) :
    (mergeEach es ds)[i]? = some e := by
  rw [getElem?_mergeEach_of_ne, he]
  intro d hd hidx
  have hmem : d.name ∈ mergedNames es ds := mem_mergedNames.2 (.inr (List.mem_map_of_mem hd))
  obtain ⟨hname, hfirst⟩ := (idxOf_mergedNames_eq_iff he hmem).1 hidx
  rcases hkept with hother | ⟨x, hx, hxname⟩
  · exact hother d hd hname.symm
  · exact hfirst x hx (hxname.trans hname)

theorem map_name_drop_mergeEach (es ds : List Annotation) :
    ((mergeEach es ds).drop es.length).map Annotation.name =
      (ds.map Annotation.name).eraseDups.filter fun name => name ∉ es.map Annotation.name := by
  rw [List.map_drop, map_name_mergeEach, mergedNames, List.drop_left' (List.length_map _)]

theorem lastNamed?_of_mem_drop (h : d ∈ (mergeEach es ds).drop es.length) :
    lastNamed? ds d.name = some d := by
  obtain ⟨j, hj⟩ := List.mem_iff_getElem?.1 h
  rw [List.getElem?_drop] at hj
  have hgiven : ∃ x ∈ ds, (mergedNames es ds).idxOf x.name = es.length + j := by
    by_contra hnone
    have hsame := getElem?_mergeEach_of_ne fun x hx hidx => hnone ⟨x, hx, hidx⟩
    rw [hj, List.getElem?_eq_none (Nat.le_add_right ..)] at hsame
    cases hsame
  obtain ⟨x, hx, hidx⟩ := hgiven
  obtain ⟨y, hy⟩ := exists_lastNamed? hx
  have hplace : (mergeEach es ds)[(mergedNames es ds).idxOf x.name]? = some y :=
    getElem?_mergeEach_of_lastNamed? hy
  rw [hidx, hj] at hplace
  obtain rfl : d = y := Option.some.inj hplace
  rw [name_of_lastNamed? hy]
  exact hy

theorem merges_mergeEach (es ds : List Annotation) : Merges es ds (mergeEach es ds) where
  replaced i e d he hfirst hlast := by
    have hmem : e.name ∈ mergedNames es ds :=
      mem_mergedNames.2 (.inl (List.mem_map_of_mem (List.mem_of_getElem? he)))
    have hidx := (idxOf_mergedNames_eq_iff he hmem).2 ⟨rfl, hfirst⟩
    rw [← hidx]
    exact getElem?_mergeEach_of_lastNamed? hlast
  kept _ _ := kept_mergeEach
  appended := map_name_drop_mergeEach es ds
  appended_last _ := lastNamed?_of_mem_drop

end Annotation

open Annotation

theorem mergeAnnotations_of_ne_nil {updates : List Annotation} (h : updates ≠ [])
    (existing : List Annotation) :
    mergeAnnotations existing updates = mergeEach existing updates :=
  if_neg fun hempty => h (List.isEmpty_iff.1 hempty)

end SchemaGraph
