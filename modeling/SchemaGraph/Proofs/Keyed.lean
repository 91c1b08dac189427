import Mathlib.Data.List.Nodup
import SchemaGraph.Keyed

/-! Properties that every entry of a map has, and what the operations do to them. -/

namespace SchemaGraph.Keyed

variable {α β : Type}

def All (P : String → α → Prop) (m : Keyed α) : Prop := ∀ e ∈ m.entries, P e.1 e.2

variable {P Q : String → α → Prop} {m : Keyed α}

theorem all_empty : (∅ : Keyed α).All P := fun _ he => absurd he List.not_mem_nil

theorem All.imp (h : m.All P) (hPQ : ∀ k v, P k v → Q k v) : m.All Q :=
  fun e he => hPQ e.1 e.2 (h e he)

theorem mem_entries_of_get? {k : String} {v : α} (h : m.get? k = some v) :
    (k, v) ∈ m.entries := by
  obtain ⟨before, after, hsplit, -⟩ := List.lookup_eq_some_iff.1 h
  exact hsplit ▸ by simp

theorem All.get? (h : m.All P) {k : String} {v : α} (hv : m.get? k = some v) : P k v :=
  h (k, v) (mem_entries_of_get? hv)

theorem get?_of_mem_entries {e : String × α} (h : e ∈ m.entries) : m.get? e.1 = some e.2 := by
  obtain ⟨before, after, hsplit⟩ := List.append_of_mem h
  refine List.lookup_eq_some_iff.2 ⟨before, after, hsplit, fun a ha => ?_⟩
  have hnodup := m.nodup
  rw [hsplit, List.map_append, List.nodup_append] at hnodup
  have hne := hnodup.2.2 a.1 (List.mem_map_of_mem ha) e.1 List.mem_cons_self
  simpa using Ne.symm hne

section Key

variable {key : α → String} (h : m.All fun k v => k = key v)
include h

theorem All.map_values : m.values.map key = m.keys := by
  rw [values, keys, List.map_map]
  exact List.map_congr_left fun e he => (h e he).symm

theorem All.get?_of_mem_values {v : α} (hv : v ∈ m.values) : m.get? (key v) = some v := by
  obtain ⟨e, he, rfl⟩ := List.mem_map.1 hv
  rw [← h e he]
  exact get?_of_mem_entries he

end Key

theorem All.of_mem_values {Q : α → Prop} (h : m.All fun _ v => Q v) : ∀ v ∈ m.values, Q v := by
  intro v hv
  obtain ⟨e, he, rfl⟩ := List.mem_map.1 hv
  exact h e he

theorem map_fst_filterMap_get? (m : Keyed α) (key : β → String) (bs : List β) :
    (bs.filterMap fun b => (m.get? (key b)).map fun a => (b, a)).map Prod.fst =
      bs.filter fun b => m.contains (key b) := by
  induction bs with
  | nil => rfl
  | cons b bs ih =>
    rw [List.filterMap_cons, List.filter_cons, contains, ← ih]
    cases m.get? (key b) <;> rfl

theorem contains_eq_false_iff {k : String} : m.contains k = false ↔ k ∉ m.keys := by
  rw [← Bool.not_eq_true, contains_iff_mem_keys]

theorem keys_insert_of_not_mem {k : String} (h : k ∉ m.keys) (v : α) :
    (m.insert k v).keys = m.keys ++ [k] := by
  rw [keys_insert, if_neg h]

theorem not_mem_keys_of_nodup {k : String} {ks : List String} (h : (m.keys ++ k :: ks).Nodup) :
    k ∉ m.keys := by
  intro hmem
  rw [List.nodup_append] at h
  exact h.2.2 k hmem k List.mem_cons_self rfl

theorem mem_of_mem_put {k : String} {v : α} {es : List (String × α)} {e : String × α}
    (h : e ∈ put k v es) : e = (k, v) ∨ e ∈ es := by
  induction es with
  | nil => exact .inl (List.mem_singleton.1 h)
  | cons a es ih =>
    rw [put] at h
    split at h
    · rcases List.mem_cons.1 h with h | h
      · exact .inl h
      · exact .inr (List.mem_cons_of_mem _ h)
    · rcases List.mem_cons.1 h with h | h
      · exact .inr (h ▸ List.mem_cons_self)
      · exact (ih h).imp_right (List.mem_cons_of_mem _)

theorem All.insert (h : m.All P) {k : String} {v : α} (hv : P k v) : (m.insert k v).All P := by
  intro e he
  rcases mem_of_mem_put he with rfl | hmem
  · exact hv
  · exact h e hmem

theorem All.foldl_insert (h : m.All P) {es : List (String × α)} (hes : ∀ e ∈ es, P e.1 e.2) :
    (es.foldl (fun m e => m.insert e.1 e.2) m).All P := by
  induction es generalizing m with
  | nil => exact h
  | cons e es ih =>
    exact ih (h.insert (hes e List.mem_cons_self)) fun a ha => hes a (List.mem_cons_of_mem _ ha)

theorem all_ofList {es : List (String × α)} (h : ∀ e ∈ es, P e.1 e.2) : (ofList es).All P :=
  all_empty.foldl_insert h

theorem All.erase (h : m.All P) (k : String) : (m.erase k).All P :=
  fun e he => h e (List.mem_filter.1 he).1

theorem All.filterValues (h : m.All P) (p : α → Bool) : (m.filterValues p).All P :=
  fun e he => h e (List.mem_filter.1 he).1

theorem All.mapValues {R : String → β → Prop} (h : m.All P) {f : α → β}
    (hf : ∀ k v, P k v → R k (f v)) : (m.mapValues f).All R := by
  intro e he
  obtain ⟨a, ha, rfl⟩ := List.mem_map.1 he
  exact hf a.1 a.2 (h a ha)

theorem All.modify (h : m.All P) {k : String} {f : α → α} (hf : ∀ v, P k v → P k (f v)) :
    (m.modify k f).All P := by
  intro e he
  obtain ⟨a, ha, rfl⟩ := List.mem_map.1 he
  by_cases hk : a.1 = k
  · rw [if_pos hk]
    subst hk
    exact hf a.2 (h a ha)
  · rw [if_neg hk]
    exact h a ha

theorem All.replace (h : m.All P) {k k' : String} {v : α} (hv : P k' v) :
    (m.replace k k' v).All P := by
  refine all_ofList fun e he => ?_
  obtain ⟨a, ha, rfl⟩ := List.mem_map.1 he
  by_cases hk : a.1 = k
  · rw [if_pos hk]
    exact hv
  · rw [if_neg hk]
    exact h a ha

theorem lookup_map_entries {f : String → String} {v : α → β} {k : String}
    {es : List (String × α)} (h : ∀ a ∈ es.map Prod.fst, f k = f a → k = a) :
    (es.map fun e => (f e.1, v e.2)).lookup (f k) = (es.lookup k).map v := by
  induction es with
  | nil => rfl
  | cons e es ih =>
    rw [List.map_cons, List.forall_mem_cons] at h
    rw [List.map_cons, List.lookup_cons, List.lookup_cons, ih h.2]
    by_cases hk : k = e.1
    · rw [hk, beq_self_eq_true, beq_self_eq_true]
      rfl
    · have hf : f k ≠ f e.1 := fun heq => hk (h.1 heq)
      rw [beq_eq_false_iff_ne.2 hk, beq_eq_false_iff_ne.2 hf]

theorem get?_mapValues (f : α → β) (k : String) : (m.mapValues f).get? k = (m.get? k).map f := by
  have hid : ∀ a ∈ m.entries.map Prod.fst, id k = id a → k = a := fun _ _ h => h
  exact lookup_map_entries hid

theorem put_map (f : α → β) (k : String) (v : α) (es : List (String × α)) :
    put k (f v) (es.map fun e => (e.1, f e.2)) = (put k v es).map fun e => (e.1, f e.2) := by
  induction es with
  | nil => rfl
  | cons e es ih =>
    rw [List.map_cons, put, put, ih]
    split <;> rfl

theorem insert_mapValues (f : α → β) (k : String) (v : α) :
    (m.mapValues f).insert k (f v) = (m.insert k v).mapValues f :=
  Keyed.ext (put_map f k v m.entries)

theorem ofList_map (f : α → β) (es : List (String × α)) :
    ofList (es.map fun e => (e.1, f e.2)) = (ofList es).mapValues f := by
  have hfold : ∀ m : Keyed α, es.foldl (fun m e => m.insert e.1 (f e.2)) (m.mapValues f) =
      (es.foldl (fun m e => m.insert e.1 e.2) m).mapValues f := by
    induction es with
    | nil => exact fun m => rfl
    | cons e es ih =>
      intro m
      rw [List.foldl_cons, insert_mapValues, ih, List.foldl_cons]
  rw [ofList, List.foldl_map]
  exact hfold empty

/-! Some of the keys -/

def filterKeys (p : String → Bool) (m : Keyed α) : Keyed α :=
  ⟨m.entries.filter fun e => p e.1, m.nodup.sublist (List.filter_sublist.map _)⟩

theorem filter_put (p : String → Bool) (k : String) (v : α) (es : List (String × α)) :
    (put k v es).filter (fun e => p e.1) =
      if p k then put k v (es.filter fun e => p e.1) else es.filter fun e => p e.1 := by
  induction es with
  | nil => simp [put, List.filter_cons]
  | cons e es ih =>
    by_cases hk : e.1 = k
    · subst hk
      cases hp : p e.1 <;> simp [put, hp]
    · rw [put, if_neg hk, List.filter_cons, List.filter_cons, ih]
      cases p e.1 <;> cases p k <;> simp [put, hk]

theorem filterKeys_insert (p : String → Bool) (k : String) (v : α) :
    (m.insert k v).filterKeys p = if p k then (m.filterKeys p).insert k v else m.filterKeys p := by
  apply Keyed.ext
  rw [apply_ite entries]
  exact filter_put p k v m.entries

theorem ofList_filter (p : String → Bool) (es : List (String × α)) :
    ofList (es.filter fun e => p e.1) = (ofList es).filterKeys p := by
  have hfold : ∀ m : Keyed α,
      (es.filter fun e => p e.1).foldl (fun m e => m.insert e.1 e.2) (m.filterKeys p) =
        (es.foldl (fun m e => m.insert e.1 e.2) m).filterKeys p := by
    induction es with
    | nil => exact fun m => rfl
    | cons e es ih =>
      intro m
      rw [List.foldl_cons, ← ih, filterKeys_insert, List.filter_cons]
      split <;> rfl
  exact hfold empty

theorem filterKeys_eq_self {p : String → Bool} (h : ∀ k ∈ m.keys, p k = true) :
    m.filterKeys p = m :=
  Keyed.ext (List.filter_eq_self.2 fun _ he => h _ (List.mem_map_of_mem he))

theorem map_fst_rekeyed (f : String → String) (v : α → β) :
    (m.entries.map fun e => (f e.1, v e.2)).map Prod.fst = m.keys.map f := by
  rw [keys, List.map_map, List.map_map]
  rfl

theorem entries_ofList_map {f : String → String} (v : α → β)
    (hf : ∀ a ∈ m.keys, ∀ b ∈ m.keys, f a = f b → a = b) :
    (ofList (m.entries.map fun e => (f e.1, v e.2))).entries =
      m.entries.map fun e => (f e.1, v e.2) := by
  refine entries_ofList _ ?_
  rw [map_fst_rekeyed]
  exact List.Nodup.map_on hf m.nodup

theorem get?_ofList_map {f : String → String} {v : α → β} {k : String}
    (hkeys : ∀ a ∈ m.keys, ∀ b ∈ m.keys, f a = f b → a = b)
    (hk : ∀ a ∈ m.keys, f k = f a → k = a) :
    (ofList (m.entries.map fun e => (f e.1, v e.2))).get? (f k) = (m.get? k).map v := by
  rw [Keyed.get?, entries_ofList_map v hkeys]
  exact lookup_map_entries hk

end SchemaGraph.Keyed
