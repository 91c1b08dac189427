/-! Maps from text to values that keep their entries in the order in which the keys were first
put. Putting a key again replaces its value where it stands. -/

namespace SchemaGraph

@[ext] structure Keyed (α : Type) where
  entries : List (String × α)
  nodup : (entries.map Prod.fst).Nodup

namespace Keyed

variable {α β : Type}

instance [DecidableEq α] : DecidableEq (Keyed α) := fun a b =>
  decidable_of_iff (a.entries = b.entries) Keyed.ext_iff.symm

def empty : Keyed α := ⟨[], List.nodup_nil⟩

instance : EmptyCollection (Keyed α) := ⟨empty⟩

instance : Inhabited (Keyed α) := ⟨empty⟩

def keys (m : Keyed α) : List String := m.entries.map Prod.fst

def values (m : Keyed α) : List α := m.entries.map Prod.snd

def size (m : Keyed α) : Nat := m.entries.length

def isEmpty (m : Keyed α) : Bool := m.entries.isEmpty

def get? (m : Keyed α) (k : String) : Option α := m.entries.lookup k

def contains (m : Keyed α) (k : String) : Bool := (m.get? k).isSome

def put (k : String) (v : α) : List (String × α) → List (String × α)
  | [] => [(k, v)]
  | e :: es => if e.1 = k then (k, v) :: es else e :: put k v es

theorem map_fst_put (k : String) (v : α) (es : List (String × α)) :
    (put k v es).map Prod.fst =
      if k ∈ es.map Prod.fst then es.map Prod.fst else es.map Prod.fst ++ [k] := by
  induction es with
  | nil => simp [put]
  | cons e es ih =>
    by_cases h : e.1 = k
    · simp [put, h]
    · have h' : ¬k = e.1 := fun hk => h hk.symm
      simp only [put, h, if_false, List.map_cons, ih, List.mem_cons, h', false_or]
      split <;> simp

theorem nodup_map_fst_put (k : String) (v : α) {es : List (String × α)}
    (h : (es.map Prod.fst).Nodup) : ((put k v es).map Prod.fst).Nodup := by
  rw [map_fst_put]
  split
  · exact h
  · rename_i hk
    rw [List.nodup_append]
    refine ⟨h, by simp, ?_⟩
    intro a ha b hb hab
    simp only [List.mem_singleton] at hb
    exact hk (hb ▸ hab ▸ ha)

theorem put_eq_append (k : String) (v : α) (es : List (String × α))
    (h : k ∉ es.map Prod.fst) : put k v es = es ++ [(k, v)] := by
  induction es with
  | nil => rfl
  | cons e es ih =>
    simp only [List.map_cons, List.mem_cons, not_or] at h
    have h' : ¬e.1 = k := fun hk => h.1 hk.symm
    simp only [put, h', if_false, ih h.2, List.cons_append]

theorem lookup_put (k k' : String) (v : α) (es : List (String × α)) :
    (put k v es).lookup k' = if k' = k then some v else es.lookup k' := by
  induction es with
  | nil =>
    by_cases h : k' = k <;> simp [put, List.lookup_cons, h, beq_eq_false_iff_ne.2]
  | cons e es ih =>
    obtain ⟨a, b⟩ := e
    by_cases ha : a = k
    · subst ha
      by_cases hk : k' = a
      · simp [put, hk]
      · simp [put, List.lookup_cons, hk, beq_eq_false_iff_ne.2 hk]
    · by_cases hk : k' = k
      · subst hk
        have hne : ¬k' = a := fun h => ha h.symm
        simp [put, List.lookup_cons, ha, beq_eq_false_iff_ne.2 hne, ih]
      · simp [put, List.lookup_cons, ha, hk, ih]

def insert (m : Keyed α) (k : String) (v : α) : Keyed α :=
  ⟨put k v m.entries, nodup_map_fst_put k v m.nodup⟩

def ofList (es : List (String × α)) : Keyed α :=
  es.foldl (fun m e => m.insert e.1 e.2) empty

def erase (m : Keyed α) (k : String) : Keyed α :=
  ⟨m.entries.filter fun e => e.1 ≠ k, (m.nodup.sublist (List.filter_sublist.map _))⟩

def filterValues (p : α → Bool) (m : Keyed α) : Keyed α :=
  ⟨m.entries.filter fun e => p e.2, (m.nodup.sublist (List.filter_sublist.map _))⟩

def mapValues (f : α → β) (m : Keyed α) : Keyed β :=
  ⟨m.entries.map fun e => (e.1, f e.2), by
    have h : (fun e : String × α => (e.1, f e.2).1) = Prod.fst := rfl
    simpa only [List.map_map, Function.comp_def, h] using m.nodup⟩

def modify (m : Keyed α) (k : String) (f : α → α) : Keyed α :=
  ⟨m.entries.map fun e => if e.1 = k then (e.1, f e.2) else e, by
    have h : (Prod.fst ∘ fun e : String × α => if e.1 = k then (e.1, f e.2) else e) =
        Prod.fst := by
      funext e
      simp only [Function.comp_apply]
      split <;> rfl
    simpa only [List.map_map, h] using m.nodup⟩

/-- Puts another entry in the place of the one under `k`; another entry under the new key would
be merged with it. -/
def replace (m : Keyed α) (k k' : String) (v : α) : Keyed α :=
  ofList (m.entries.map fun e => if e.1 = k then (k', v) else e)

def sameEntries (same : α → α → Bool) (a b : Keyed α) : Bool :=
  a.size == b.size && a.entries.all fun e =>
    match b.get? e.1 with
    | some v => same e.2 v
    | none => false

@[simp] theorem entries_empty : (∅ : Keyed α).entries = [] := rfl

@[simp] theorem get?_empty (k : String) : (∅ : Keyed α).get? k = none := rfl

@[simp] theorem keys_empty : (∅ : Keyed α).keys = [] := rfl

theorem get?_insert (m : Keyed α) (k k' : String) (v : α) :
    (m.insert k v).get? k' = if k' = k then some v else m.get? k' :=
  lookup_put k k' v m.entries

@[simp] theorem get?_insert_self (m : Keyed α) (k : String) (v : α) :
    (m.insert k v).get? k = some v := by
  simp [get?_insert]

theorem contains_iff_mem_keys (m : Keyed α) (k : String) :
    m.contains k = true ↔ k ∈ m.keys := by
  simp only [contains, get?, keys, List.lookup_isSome_iff, List.mem_map, beq_iff_eq]
  exact ⟨fun ⟨e, he, hk⟩ => ⟨e, he, hk.symm⟩, fun ⟨e, he, hk⟩ => ⟨e, he, hk.symm⟩⟩

theorem entries_insert_of_not_mem (m : Keyed α) (k : String) (v : α) (h : k ∉ m.keys) :
    (m.insert k v).entries = m.entries ++ [(k, v)] :=
  put_eq_append k v m.entries h

theorem keys_insert (m : Keyed α) (k : String) (v : α) :
    (m.insert k v).keys = if k ∈ m.keys then m.keys else m.keys ++ [k] :=
  map_fst_put k v m.entries

theorem keys_erase (m : Keyed α) (k : String) :
    (m.erase k).keys = m.keys.filter fun k' => k' ≠ k := by
  simp only [erase, keys, List.filter_map]
  rfl

@[simp] theorem keys_mapValues (f : α → β) (m : Keyed α) : (m.mapValues f).keys = m.keys := by
  simp only [mapValues, keys, List.map_map]
  rfl

theorem entries_foldl_insert (es : List (String × α)) (m : Keyed α)
    (h : (m.keys ++ es.map Prod.fst).Nodup) :
    (es.foldl (fun m e => m.insert e.1 e.2) m).entries = m.entries ++ es := by
  induction es generalizing m with
  | nil => simp
  | cons e es ih =>
    have hk : e.1 ∉ m.keys := fun hm => by
      rw [List.nodup_append] at h
      exact h.2.2 e.1 hm e.1 (by simp) rfl
    have hkeys : (m.insert e.1 e.2).keys = m.keys ++ [e.1] := by rw [keys_insert, if_neg hk]
    rw [List.foldl_cons, ih (m.insert e.1 e.2) (by rw [hkeys]; simpa using h),
      entries_insert_of_not_mem m e.1 e.2 hk]
    simp

theorem entries_ofList (es : List (String × α)) (h : (es.map Prod.fst).Nodup) :
    (ofList es).entries = es := by
  rw [ofList, entries_foldl_insert es empty (by simpa [keys, empty] using h)]
  rfl

theorem ofList_entries (m : Keyed α) : ofList m.entries = m :=
  Keyed.ext (entries_ofList m.entries m.nodup)

end Keyed

end SchemaGraph
