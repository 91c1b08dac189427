import Mathlib.Data.List.Perm.Subperm
import SchemaGraph.Proofs.Keyed

/-! Maps as what is found under each key. Every operation is described by what it does to the values
that are found; two maps with the same keys in the same order are equal when the same is found in
them, and two maps whose values are alike stay so under operations that treat like values alike,
whatever the order of their keys. -/

namespace SchemaGraph.Keyed

variable {α β γ δ : Type}

section Lookup

variable {m : Keyed α}

theorem get?_eq_some_iff {k : String} {v : α} : m.get? k = some v ↔ (k, v) ∈ m.entries :=
  ⟨mem_entries_of_get?, fun h => get?_of_mem_entries h⟩

theorem mem_keys_of_get? {k : String} {v : α} (h : m.get? k = some v) : k ∈ m.keys :=
  List.mem_map_of_mem (mem_entries_of_get? h)

theorem get?_eq_none_iff {k : String} : m.get? k = none ↔ k ∉ m.keys := by
  rw [← contains_eq_false_iff, contains, Option.isSome_eq_false_iff, Option.isNone_iff_eq_none]

theorem exists_get?_of_mem_keys {k : String} (h : k ∈ m.keys) : ∃ v, m.get? k = some v :=
  Option.isSome_iff_exists.1 ((contains_iff_mem_keys m k).2 h)

theorem all_iff_get? {P : String → α → Prop} :
    m.All P ↔ ∀ k v, m.get? k = some v → P k v :=
  ⟨fun h _ _ hv => h.get? hv, fun h e he => h e.1 e.2 (get?_of_mem_entries he)⟩

theorem get?_erase (k i : String) : (m.erase k).get? i = if i = k then none else m.get? i := by
  apply Option.ext
  intro v
  by_cases hi : i = k <;> simp [get?_eq_some_iff, erase, hi]

theorem get?_filterValues (p : α → Bool) (i : String) :
    (m.filterValues p).get? i = (m.get? i).filter p := by
  apply Option.ext
  intro v
  simp [get?_eq_some_iff, filterValues, Option.filter_eq_some_iff]

theorem get?_modify (k : String) (f : α → α) (i : String) :
    (m.modify k f).get? i = if i = k then (m.get? i).map f else m.get? i := by
  have hentries : (m.modify k f).entries = m.entries.map fun e =>
      (e.1, if e.1 = k then f e.2 else e.2) :=
    List.map_congr_left fun e _ => by split <;> rfl
  apply Option.ext
  intro v
  rw [get?_eq_some_iff, hentries, List.mem_map]
  constructor
  · rintro ⟨e, he, hv⟩
    obtain ⟨rfl, rfl⟩ := Prod.mk.inj hv
    rw [get?_of_mem_entries he]
    split <;> rfl
  · intro hv
    by_cases hi : i = k
    · rw [if_pos hi, Option.map_eq_some_iff] at hv
      obtain ⟨w, hw, rfl⟩ := hv
      exact ⟨(i, w), mem_entries_of_get? hw, by rw [if_pos hi]⟩
    · rw [if_neg hi] at hv
      exact ⟨(i, v), mem_entries_of_get? hv, by rw [if_neg hi]⟩

theorem keys_modify (k : String) (f : α → α) : (m.modify k f).keys = m.keys := by
  unfold keys modify
  rw [List.map_map]
  refine List.map_congr_left fun e _ => ?_
  rw [Function.comp_apply]
  split <;> rfl

theorem eq_of_get? {a b : Keyed α} (hkeys : a.keys = b.keys) (h : ∀ k, a.get? k = b.get? k) :
    a = b := by
  have hentries : ∀ m : Keyed α, m.entries = m.keys.filterMap fun k =>
      (m.get? k).map fun v => (k, v) := by
    intro m
    have hself : ∀ e ∈ m.entries, (m.get? e.1).map (fun v => (e.1, v)) = some e := by
      intro e he
      rw [get?_of_mem_entries he]
      rfl
    rw [keys, List.filterMap_map]
    exact ((List.filterMap_congr hself).trans List.filterMap_some).symm
  apply Keyed.ext
  rw [hentries a, hentries b, hkeys]
  simp only [h]

theorem modify_congr {k : String} {f f' : α → α} (h : ∀ v, m.get? k = some v → f v = f' v) :
    m.modify k f = m.modify k f' := by
  refine eq_of_get? (by rw [keys_modify, keys_modify]) fun i => ?_
  rw [get?_modify, get?_modify]
  split
  · rename_i hi
    exact Option.map_congr fun v hv => h v (hi ▸ hv)
  · rfl

theorem modify_modify (k : String) (f f' : α → α) :
    (m.modify k f).modify k f' = m.modify k fun v => f' (f v) := by
  refine eq_of_get? (by rw [keys_modify, keys_modify, keys_modify]) fun i => ?_
  rw [get?_modify, get?_modify, get?_modify]
  by_cases hi : i = k
  · rw [if_pos hi, if_pos hi, if_pos hi, Option.map_map]
    rfl
  · rw [if_neg hi, if_neg hi, if_neg hi]

theorem modify_comm {k k' : String} (hne : k ≠ k') (f f' : α → α) :
    (m.modify k f).modify k' f' = (m.modify k' f').modify k f := by
  refine eq_of_get? (by simp only [keys_modify]) fun i => ?_
  rw [get?_modify, get?_modify, get?_modify, get?_modify]
  by_cases hi : i = k
  · have hi' : i ≠ k' := hi ▸ hne
    rw [if_pos hi, if_pos hi, if_neg hi', if_neg hi']
  · rw [if_neg hi, if_neg hi]

theorem mapValues_mapValues (f : α → β) (f' : β → γ) :
    (m.mapValues f).mapValues f' = m.mapValues fun v => f' (f v) :=
  Keyed.ext (List.map_map)

theorem mapValues_congr {f f' : α → β} (h : m.All fun _ v => f v = f' v) :
    m.mapValues f = m.mapValues f' :=
  Keyed.ext (List.map_congr_left fun e he => Prod.ext rfl (h e he))

theorem mapValues_eq_self {f : α → α} (h : m.All fun _ v => f v = v) : m.mapValues f = m := by
  have hid : m.mapValues f = m.mapValues id := mapValues_congr h
  exact hid.trans (Keyed.ext (List.map_id _))

theorem filterValues_mapValues (f : α → β) (p : β → Bool) :
    (m.mapValues f).filterValues p = (m.filterValues fun v => p (f v)).mapValues f :=
  Keyed.ext List.filter_map

theorem filterValues_congr {p p' : α → Bool} (h : m.All fun _ v => p v = p' v) :
    m.filterValues p = m.filterValues p' :=
  Keyed.ext (List.filter_congr h)

theorem all_filterValues {p : α → Bool} : (m.filterValues p).All fun _ v => p v = true :=
  fun _ he => (List.mem_filter.1 he).2

end Lookup

/-! Other keys -/

section Rekeyed

variable {m : Keyed α} {f : String → String}

theorem keys_ofList_map (v : α → β) (hf : ∀ a ∈ m.keys, ∀ b ∈ m.keys, f a = f b → a = b) :
    (ofList (m.entries.map fun e => (f e.1, v e.2))).keys = m.keys.map f := by
  rw [keys, entries_ofList_map v hf, map_fst_rekeyed]

theorem get?_ofList_map_of_mem (v : α → β) (hf : ∀ a ∈ m.keys, ∀ b ∈ m.keys, f a = f b → a = b)
    {k : String} (hk : k ∈ m.keys) :
    (ofList (m.entries.map fun e => (f e.1, v e.2))).get? (f k) = (m.get? k).map v :=
  get?_ofList_map hf fun a ha => hf k hk a ha

end Rekeyed

/-! Maps with like values -/

section Related

variable {R : α → β → Prop} {S : γ → δ → Prop} {x : Option α} {y : Option β}

theorem rel_refl {R : α → α → Prop} (h : ∀ v, R v v) (x : Option α) : Option.Rel R x x := by
  cases x with
  | none => exact .none
  | some v => exact .some (h v)

theorem rel_flip {T : β → α → Prop} (h : Option.Rel R x y) (hR : ∀ v w, R v w → T w v) :
    Option.Rel T y x := by
  cases h with
  | none => exact .none
  | some hvw => exact .some (hR _ _ hvw)

theorem rel_map (h : Option.Rel R x y) {f : α → γ} {f' : β → δ}
    (hf : ∀ v w, R v w → S (f v) (f' w)) : Option.Rel S (x.map f) (y.map f') := by
  cases h with
  | none => exact .none
  | some hvw => exact .some (hf _ _ hvw)

theorem rel_filter (h : Option.Rel R x y) {p : α → Bool} {p' : β → Bool}
    (hp : ∀ v w, R v w → p v = p' w) : Option.Rel R (x.filter p) (y.filter p') := by
  cases h with
  | none => exact .none
  | @some v w hvw =>
    rw [Option.filter_some, Option.filter_some, hp v w hvw]
    split
    · exact .some hvw
    · exact .none

theorem exists_right_of_rel (h : Option.Rel R x y) {v : α} (hv : x = some v) :
    ∃ w, y = some w ∧ R v w := by
  cases h with
  | none => cases hv
  | some hvw =>
    cases hv
    exact ⟨_, rfl, hvw⟩

theorem isSome_eq_of_rel (h : Option.Rel R x y) : x.isSome = y.isSome := by
  cases h with
  | none => rfl
  | some _ => rfl

end Related

def Alike (R : α → β → Prop) (a : Keyed α) (b : Keyed β) : Prop :=
  ∀ k, Option.Rel R (a.get? k) (b.get? k)

section Alike

variable {R : α → β → Prop} {S : γ → δ → Prop} {a : Keyed α} {b : Keyed β}

theorem Alike.exists_right (h : Alike R a b) {k : String} {v : α} (hv : a.get? k = some v) :
    ∃ w, b.get? k = some w ∧ R v w := exists_right_of_rel (h k) hv

theorem Alike.flip {T : β → α → Prop} (h : Alike R a b) (hR : ∀ v w, R v w → T w v) :
    Alike T b a := fun k => rel_flip (h k) hR

theorem Alike.contains_eq (h : Alike R a b) (k : String) : a.contains k = b.contains k :=
  isSome_eq_of_rel (h k)

theorem Alike.mem_keys_iff (h : Alike R a b) (k : String) : k ∈ a.keys ↔ k ∈ b.keys := by
  rw [← contains_iff_mem_keys, ← contains_iff_mem_keys, h.contains_eq k]

theorem Alike.all (h : Alike R a b) {P : String → α → Prop} {Q : String → β → Prop}
    (hP : a.All P) (hPQ : ∀ k v w, R v w → P k v → Q k w) : b.All Q := by
  refine all_iff_get?.2 fun k w hw => ?_
  have hflip : Alike (fun w v => R v w) b a := h.flip fun _ _ hvw => hvw
  obtain ⟨v, hv, hvw⟩ := hflip.exists_right hw
  exact hPQ k v w hvw (hP.get? hv)

theorem Alike.insert (h : Alike R a b) (k : String) {v : α} {w : β} (hvw : R v w) :
    Alike R (a.insert k v) (b.insert k w) := by
  intro i
  rw [get?_insert, get?_insert]
  split
  · exact .some hvw
  · exact h i

theorem Alike.erase (h : Alike R a b) (k : String) : Alike R (a.erase k) (b.erase k) := by
  intro i
  rw [get?_erase, get?_erase]
  split
  · exact .none
  · exact h i

theorem Alike.mapValues (h : Alike R a b) {f : α → γ} {f' : β → δ}
    (hf : ∀ v w, R v w → S (f v) (f' w)) : Alike S (a.mapValues f) (b.mapValues f') := by
  intro i
  rw [get?_mapValues, get?_mapValues]
  exact rel_map (h i) hf

theorem Alike.filterValues (h : Alike R a b) {p : α → Bool} {p' : β → Bool}
    (hp : ∀ v w, R v w → p v = p' w) : Alike R (a.filterValues p) (b.filterValues p') := by
  intro i
  rw [get?_filterValues, get?_filterValues]
  exact rel_filter (h i) hp

theorem Alike.modify (h : Alike R a b) (k : String) {f : α → α} {f' : β → β}
    (hf : ∀ v w, R v w → R (f v) (f' w)) : Alike R (a.modify k f) (b.modify k f') := by
  intro i
  rw [get?_modify, get?_modify]
  split
  · exact rel_map (h i) hf
  · exact h i

theorem Alike.rekeyed (h : Alike R a b) {f : String → String} {v : α → γ} {w : β → δ}
    (hf : ∀ i ∈ a.keys, ∀ j ∈ a.keys, f i = f j → i = j) (hvw : ∀ x y, R x y → S (v x) (w y)) :
    Alike S (ofList (a.entries.map fun e => (f e.1, v e.2)))
      (ofList (b.entries.map fun e => (f e.1, w e.2))) := by
  have hf' : ∀ i ∈ b.keys, ∀ j ∈ b.keys, f i = f j → i = j := fun i hi j hj =>
    hf i ((h.mem_keys_iff i).2 hi) j ((h.mem_keys_iff j).2 hj)
  intro i
  by_cases hi : i ∈ a.keys.map f
  · obtain ⟨k, hk, rfl⟩ := List.mem_map.1 hi
    rw [get?_ofList_map_of_mem v hf hk, get?_ofList_map_of_mem w hf' ((h.mem_keys_iff k).1 hk)]
    exact rel_map (h k) hvw
  · have hi' : i ∉ b.keys.map f := by
      intro hmem
      obtain ⟨k, hk, rfl⟩ := List.mem_map.1 hmem
      exact hi (List.mem_map_of_mem ((h.mem_keys_iff k).2 hk))
    rw [get?_eq_none_iff.2 fun hmem => hi (keys_ofList_map v hf ▸ hmem),
      get?_eq_none_iff.2 fun hmem => hi' (keys_ofList_map w hf' ▸ hmem)]
    exact .none

theorem alike_refl {R : α → α → Prop} {a : Keyed α} (h : ∀ v, R v v) : Alike R a a :=
  fun k => rel_refl h (a.get? k)

theorem sameEntries_eq_true_iff {same : α → α → Bool} {a b : Keyed α} :
    sameEntries same a b = true ↔ a.keys.length = b.keys.length ∧
      ∀ k v, a.get? k = some v → ∃ w, b.get? k = some w ∧ same v w = true := by
  have hsize : ∀ m : Keyed α, m.size = m.keys.length := fun m => List.length_map _ |>.symm
  rw [sameEntries, Bool.and_eq_true, beq_iff_eq, hsize, hsize, List.all_eq_true]
  refine and_congr_right fun _ => ⟨fun h k v hv => ?_, fun h e he => ?_⟩
  · have hk := h (k, v) (mem_entries_of_get? hv)
    cases hb : b.get? k with
    | none =>
      simp only [hb] at hk
      cases hk
    | some w =>
      simp only [hb] at hk
      exact ⟨w, rfl, hk⟩
  · obtain ⟨w, hw, hsame⟩ := h e.1 e.2 (get?_of_mem_entries he)
    simp only [hw, hsame]

/-- The same number of entries is enough for the same keys, because no key comes twice. -/
theorem sameEntries_iff {same : α → α → Bool} {a b : Keyed α} :
    sameEntries same a b = true ↔ Alike (fun v w => same v w = true) a b := by
  rw [sameEntries_eq_true_iff]
  constructor
  · rintro ⟨hlength, h⟩ k
    cases hv : a.get? k with
    | some v =>
      obtain ⟨w, hw, hsame⟩ := h k v hv
      rw [hw]
      exact .some hsame
    | none =>
      have hsubset : a.keys ⊆ b.keys := by
        intro i hi
        obtain ⟨v, hv⟩ := exists_get?_of_mem_keys hi
        obtain ⟨w, hw, -⟩ := h i v hv
        exact mem_keys_of_get? hw
      have hperm : a.keys.Perm b.keys :=
        (List.subperm_of_subset a.nodup hsubset).perm_of_length_le (Nat.le_of_eq hlength.symm)
      have hnone : b.get? k = none :=
        get?_eq_none_iff.2 fun hk => get?_eq_none_iff.1 hv (hperm.mem_iff.2 hk)
      rw [hnone]
      exact .none
  · intro h
    have hperm : a.keys.Perm b.keys :=
      (List.perm_ext_iff_of_nodup a.nodup b.nodup).2 h.mem_keys_iff
    exact ⟨hperm.length_eq, fun k v hv => h.exists_right hv⟩

end Alike

end SchemaGraph.Keyed
