import SchemaGraph.Proofs.Query.Answerable
import SchemaGraph.Proofs.Query.NestedArguments

/-! What is selected of a graph that keeps the rules. Nothing can fail there, so that every
selection is a function of its field: a page, something plain, or the values of an inline type in
place, with room for two of those inside one another. -/

namespace SchemaGraph

theorem mapM_eq_ok_map {ε α β : Type} {f : α → Except ε β} {h : α → β} {xs : List α}
    (hf : ∀ x ∈ xs, f x = .ok (h x)) : xs.mapM f = .ok (xs.map h) := by
  rw [mapM_eq_ok_iff, List.forall₂_map_right_iff, List.forall₂_same]
  exact hf

def plainSelection (f : Field) : Selection :=
  if Builtin.isResourceReference f.type.name then resourceSelection f
  else if f.type.isCustom then .node f.name identity else .leaf f.name

theorem name_plainSelection (f : Field) : (plainSelection f).name = f.name := by
  unfold plainSelection
  split
  · rfl
  · split <;> rfl

namespace Graph

variable (g : Graph)

def embedded? (f : Field) : Option TypeDef := if f.isRelation then g.inlineTarget? f else none

/-- A field with room for so many inline types inside one another. Without room for its own, the
field is left out. -/
def shownWithin : (levels : Nat) → Field → Option Selection
  | 0, f => if (g.embedded? f).isNone then some (plainSelection f) else none
  | levels + 1, f =>
    match g.embedded? f with
    | none => some (plainSelection f)
    | some t => some (.node f.name (t.fields.values.filterMap (shownWithin levels)))

def fits (levels : Nat) (f : Field) : Bool := levels ≠ 0 || (g.embedded? f).isNone

def shape (o : ItemOptions) (f : Field) : Selection :=
  match g.embedded? f with
  | some t => .node f.name (t.fields.values.filterMap (g.shownWithin 1))
  | none => if g.pages f then relationList o f else plainSelection f

variable {g} {f : Field}

theorem inlineTarget_of_embedded {t : TypeDef} (h : g.embedded? f = some t) :
    f.isRelation = true ∧ g.inlineTarget? f = some t := by
  unfold embedded? at h
  split at h
  · exact ⟨‹_›, h⟩
  · cases h

theorem pages_of_embedded {t : TypeDef} (h : g.embedded? f = some t) : g.pages f = false := by
  simp [pages, (inlineTarget_of_embedded h).2]

theorem embedded_of_pages (h : g.pages f = true) : g.embedded? f = none := by
  cases ht : g.embedded? f with
  | none => rfl
  | some t => rw [pages_of_embedded ht] at h; cases h

theorem shownWithin_of_none (h : g.embedded? f = none) (levels : Nat) :
    g.shownWithin levels f = some (plainSelection f) := by
  cases levels <;> simp [shownWithin, h]

theorem shownWithin_zero_of_some {t : TypeDef} (h : g.embedded? f = some t) :
    g.shownWithin 0 f = none := by simp [shownWithin, h]

theorem shownWithin_succ_of_some {t : TypeDef} (h : g.embedded? f = some t) (levels : Nat) :
    g.shownWithin (levels + 1) f =
      some (.node f.name (t.fields.values.filterMap (g.shownWithin levels))) := by
  simp [shownWithin, h]

theorem room_of_embedded {levels : Nat} {s : Selection} {t : TypeDef}
    (ht : g.embedded? f = some t) (h : g.shownWithin levels f = some s) :
    ∃ below, levels = below + 1 ∧
      s = .node f.name (t.fields.values.filterMap (g.shownWithin below)) := by
  cases levels with
  | zero =>
    rw [shownWithin_zero_of_some ht] at h
    cases h
  | succ below =>
    rw [shownWithin_succ_of_some ht] at h
    exact ⟨below, rfl, (Option.some.inj h).symm⟩

theorem plain_or_embedded_of_shownWithin {levels : Nat} {s : Selection}
    (h : g.shownWithin levels f = some s) :
    (g.embedded? f = none ∧ s = plainSelection f) ∨
      ∃ below t, levels = below + 1 ∧ g.embedded? f = some t ∧
        s = .node f.name (t.fields.values.filterMap (g.shownWithin below)) := by
  cases ht : g.embedded? f with
  | none =>
    rw [shownWithin_of_none ht] at h
    exact .inl ⟨rfl, (Option.some.inj h).symm⟩
  | some t =>
    obtain ⟨below, hroom, hs⟩ := room_of_embedded ht h
    exact .inr ⟨below, t, hroom, rfl, hs⟩

theorem shownWithin_induction {P : Nat → Selection → Prop}
    (plain : ∀ levels f, P levels (plainSelection f))
    (embedded : ∀ levels f t, g.embedded? f = some t →
      (∀ c ∈ t.fields.values.filterMap (g.shownWithin levels), P levels c) →
        P (levels + 1) (.node f.name (t.fields.values.filterMap (g.shownWithin levels))))
    {levels : Nat} {s : Selection} (h : g.shownWithin levels f = some s) : P levels s := by
  induction levels generalizing f s with
  | zero =>
    obtain ⟨-, rfl⟩ | ⟨_, _, hlevels, -⟩ := plain_or_embedded_of_shownWithin h
    · exact plain 0 f
    · cases hlevels
  | succ levels ih =>
    obtain ⟨-, rfl⟩ | ⟨_, t, hlevels, ht, rfl⟩ := plain_or_embedded_of_shownWithin h
    · exact plain (levels + 1) f
    · obtain rfl := Nat.succ.inj hlevels
      refine embedded levels f t ht fun c hc => ?_
      obtain ⟨a, -, hac⟩ := List.mem_filterMap.1 hc
      exact ih hac

theorem name_of_shownWithin {levels : Nat} {s : Selection}
    (h : g.shownWithin levels f = some s) : s.name = f.name := by
  obtain ⟨-, rfl⟩ | ⟨_, _, -, -, rfl⟩ := plain_or_embedded_of_shownWithin h
  · exact name_plainSelection f
  · rfl

theorem fits_iff {levels : Nat} :
    g.fits levels f = true ↔ ∃ s, g.shownWithin levels f = some s := by
  cases h : g.embedded? f with
  | none => simp [fits, h, shownWithin_of_none h]
  | some t =>
    cases levels with
    | zero => simp [fits, h, shownWithin_zero_of_some h]
    | succ levels => simp [fits, shownWithin_succ_of_some h]

theorem map_name_filterMap (levels : Nat) (fs : List Field) :
    (fs.filterMap (g.shownWithin levels)).map Selection.name =
      (fs.filter (g.fits levels)).map Field.name := by
  induction fs with
  | nil => rfl
  | cons f fs ih =>
    rw [List.filterMap_cons, List.filter_cons]
    cases h : g.shownWithin levels f with
    | none =>
      have hfits : ¬g.fits levels f = true := fun hfits => by
        obtain ⟨s, hs⟩ := fits_iff.1 hfits
        rw [h] at hs
        cases hs
      rw [if_neg hfits]
      exact ih
    | some s =>
      rw [if_pos (fits_iff.2 ⟨s, h⟩), List.map_cons, List.map_cons, ih, name_of_shownWithin h]

theorem shownWithin_two (o : ItemOptions) (h : g.pages f = false) :
    g.shownWithin 2 f = some (g.shape o f) := by
  unfold shape
  cases ht : g.embedded? f with
  | none =>
    rw [shownWithin_of_none ht]
    simp [h]
  | some t => exact shownWithin_succ_of_some ht 1

theorem shape_of_pages (o : ItemOptions) (h : g.pages f = true) :
    g.shape o f = relationList o f := by
  simp [shape, embedded_of_pages h, h]

theorem name_shape (o : ItemOptions) (f : Field) : (g.shape o f).name = f.name := by
  cases h : g.pages f with
  | true => rw [shape_of_pages o h]; rfl
  | false => exact name_of_shownWithin (shownWithin_two o h)

/-! Selections -/

section Expand

variable {expand : Field → TypeDef → Except QueryError (Option Selection)}

theorem inlineField_of_none (h : g.embedded? f = none) :
    inlineField g expand f = .ok (some (plainSelection f)) := by
  unfold embedded? Field.isRelation at h
  unfold inlineField plainSelection
  split
  · rfl
  · rename_i hresource
    cases hcustom : f.type.isCustom with
    | false => rfl
    | true =>
      have htarget : g.inlineTarget? f = none := by simpa [hcustom, hresource] using h
      simp [htarget]

theorem inlineField_of_some {t : TypeDef} (h : g.embedded? f = some t) :
    inlineField g expand f = expand f t := by
  obtain ⟨hrelation, htarget⟩ := inlineTarget_of_embedded h
  rw [Field.isRelation, Bool.and_eq_true, Bool.not_eq_true'] at hrelation
  simp [inlineField, hrelation, htarget]

end Expand

theorem fieldSelection_of_some (o : ItemOptions) {t : TypeDef} (h : g.embedded? f = some t) :
    fieldSelection g o f = inlineSelection g 1 f t := by
  obtain ⟨hrelation, htarget⟩ := inlineTarget_of_embedded h
  rw [Field.isRelation, Bool.and_eq_true, Bool.not_eq_true'] at hrelation
  simp [fieldSelection, hrelation, htarget]

theorem fieldSelection_of_none (o : ItemOptions) (h : g.embedded? f = none) :
    fieldSelection g o f = .ok (if g.pages f then relationList o f else plainSelection f) := by
  unfold embedded? Field.isRelation at h
  unfold fieldSelection plainSelection pages Field.isRelation
  cases hresource : Builtin.isResourceReference f.type.name with
  | true => simp
  | false =>
    cases hcustom : f.type.isCustom with
    | false => simp
    | true =>
      have htarget : g.inlineTarget? f = none := by simpa [hcustom, hresource] using h
      cases hlist : f.type.isList <;> simp [htarget]

theorem inlineWith_eq {expand : Field → TypeDef → Except QueryError (Option Selection)}
    {shown : Field → Option Selection} {t : TypeDef} (ht : t.Embeddable)
    (hshown : ∀ a ∈ t.fields.values, inlineField g expand a = .ok (shown a)) (f : Field) :
    inlineWith g expand f t = .ok (.node f.name (t.fields.values.filterMap shown)) := by
  have hnone : (t.fields.values.find? fun f => f.isRelation && f.type.isList) = none :=
    List.find?_eq_none.2 fun a ha => by simp [ht a ha]
  unfold inlineWith
  rw [hnone]
  refine bind_eq_ok_iff.2 ⟨_, mapM_eq_ok_map hshown, ?_⟩
  rw [List.filterMap_map]
  rfl

section Rules

variable (hrules : g.violations = [])
include hrules

theorem embeddable_of_embedded {t : TypeDef} (h : g.embedded? f = some t) : t.Embeddable :=
  embeddable_inlineTarget hrules (inlineTarget_of_embedded h).2

theorem inlineSelection_eq (levels : Nat) (f : Field) {t : TypeDef} (ht : t.Embeddable) :
    inlineSelection g levels f t =
      .ok (.node f.name (t.fields.values.filterMap (g.shownWithin levels))) := by
  induction levels generalizing f t with
  | zero =>
    refine inlineWith_eq ht (fun a _ => ?_) f
    cases ha : g.embedded? a with
    | none => rw [inlineField_of_none ha, shownWithin_of_none ha]
    | some u => rw [inlineField_of_some ha, shownWithin_zero_of_some ha]
  | succ levels ih =>
    refine inlineWith_eq ht (fun a _ => ?_) f
    cases ha : g.embedded? a with
    | none => rw [inlineField_of_none ha, shownWithin_of_none ha]
    | some u =>
      rw [inlineField_of_some ha, shownWithin_succ_of_some ha,
        ih a (embeddable_of_embedded hrules ha)]
      rfl

theorem fieldSelection_eq (o : ItemOptions) (f : Field) :
    fieldSelection g o f = .ok (g.shape o f) := by
  unfold shape
  cases ht : g.embedded? f with
  | none => exact fieldSelection_of_none o ht
  | some t =>
    rw [fieldSelection_of_some o ht]
    exact inlineSelection_eq hrules 1 f (embeddable_of_embedded hrules ht)

theorem itemSelections_eq (o : ItemOptions) (t : TypeDef) : itemSelections g o t =
    .ok (identity ++ (selectedFields o t).map (g.shape o)) := by
  unfold itemSelections
  exact bind_eq_ok_iff.2 ⟨_, mapM_eq_ok_map fun f _ => fieldSelection_eq hrules o f, rfl⟩

end Rules

end Graph

/-! Requests that show instances -/

def QueryRequest.instances? : QueryRequest → Option (String × ItemOptions)
  | .list p => some (p.typeName, Graph.plainOptions p.limitFields p.nestedLimit)
  | .get p => some (p.typeName, p.options)
  | .search p => some (p.typeName, Graph.plainOptions p.limitFields p.nestedLimit)
  | _ => none

/-- Whether the request is for a single instance. Only such requests have filters and cursors for
the lists of related instances. -/
def QueryRequest.isGet : QueryRequest → Bool
  | .get _ => true
  | _ => false

namespace Graph

def requested (g : Graph) (r : QueryRequest) : List Field :=
  r.instances?.toList.flatMap fun e => (g.type? e.1).toList.flatMap (selectedFields e.2)

structure Presents (g : Graph) (typeName : String) (o : ItemOptions) (t : TypeDef)
    (items : List Selection) (q : Query) : Prop where
  type : g.type? typeName = some t
  selected : itemSelections g o t = .ok items
  root : ∃ name as rest, q.operation.roots = [.field name as (.node "items" items :: rest)] ∧
    (rest = [] ∨ rest = [pageInfo])

variable {g : Graph} {r : QueryRequest} {typeName : String} {o : ItemOptions} {q : Query}

theorem exists_presents (hr : r.instances? = some (typeName, o)) (h : g.query r = .ok q) :
    ∃ t items, g.Presents typeName o t items q := by
  cases r with
  | list p =>
    cases hr
    obtain ⟨t, ht, h⟩ := bind_eq_ok_iff.1 h
    obtain ⟨items, hitems, h⟩ := bind_eq_ok_iff.1 h
    cases h
    exact ⟨t, items, target_eq_ok_iff.1 ht, hitems, _, _, _, rfl, .inr rfl⟩
  | get p =>
    cases hr
    obtain ⟨t, items, h⟩ := exists_answers_of_getQuery h
    exact ⟨t, items, h.type, h.selected, _, _, _, congrArg Operation.roots h.operation, .inl rfl⟩
  | search p =>
    cases hr
    obtain ⟨t, ht, h⟩ := bind_eq_ok_iff.1 h
    obtain ⟨items, hitems, h⟩ := bind_eq_ok_iff.1 h
    cases h
    exact ⟨t, items, target_eq_ok_iff.1 ht, hitems, _, _, _, rfl, .inl rfl⟩
  | aggregate _ => cases hr
  | rowCount _ => cases hr

theorem requested_eq (hr : r.instances? = some (typeName, o)) {t : TypeDef}
    (ht : g.type? typeName = some t) : g.requested r = selectedFields o t := by
  simp [requested, hr, ht]

theorem Presents.items_eq {t : TypeDef} {items : List Selection}
    (h : g.Presents typeName o t items q) : q.items = items := by
  obtain ⟨name, as, rest, hroot, rfl | rfl⟩ := h.root
  all_goals
    rw [Query.items, hroot]
    simp [Selection.node, Selection.children, Selection.name, pageInfo]

theorem Presents.items_eq_shapes {t : TypeDef} {items : List Selection}
    (h : g.Presents typeName o t items q) (hrules : g.violations = []) :
    q.items = identity ++ (selectedFields o t).map (g.shape o) := by
  rw [h.items_eq]
  exact Except.ok.inj (h.selected.symm.trans (itemSelections_eq hrules o t))

/-! Fields and their selections -/

/-- A field and what shows it among the selections, inside so many inline types. The fields of an
inline type are sought, by name, among what is selected of the field that leads to it. -/
inductive Shown (g : Graph) (fields : List Field) (items : List Selection) :
    Nat → Field → Selection → Prop
  | selected {f : Field} {s : Selection} (hf : f ∈ fields) (hs : s ∈ items)
      (hname : s.name = f.name) : Shown g fields items 0 f s
  | inside {n : Nat} {f a : Field} {s c : Selection} {t : TypeDef}
      (h : Shown g fields items n f s) (ht : g.embedded? f = some t)
      (ha : a ∈ t.fields.values) (hc : c ∈ s.children) (hname : c.name = a.name) :
      Shown g fields items (n + 1) a c

theorem not_shown_nil {items : List Selection} {n : Nat} {f : Field} {s : Selection} :
    ¬g.Shown [] items n f s := by
  intro h
  induction h with
  | selected hf _ _ => cases hf
  | inside _ _ _ _ _ ih => exact ih

section Rules

variable (hrules : g.violations = [])
include hrules

theorem eq_of_name_embedded {f a b : Field} {t : TypeDef} (ht : g.embedded? f = some t)
    (ha : a ∈ t.fields.values) (hb : b ∈ t.fields.values) (hname : a.name = b.name) : a = b := by
  obtain ⟨htype, -⟩ := Option.filter_eq_some_iff.1 (inlineTarget_of_embedded ht).2
  exact List.inj_on_of_nodup_map (nodup_field_names hrules htype) ha hb hname

theorem mem_children_iff {f a : Field} {t : TypeDef} (ht : g.embedded? f = some t)
    (ha : a ∈ t.fields.values) {levels : Nat} {c : Selection} :
    c ∈ t.fields.values.filterMap (g.shownWithin levels) ∧ c.name = a.name ↔
      g.shownWithin levels a = some c := by
  constructor
  · rintro ⟨hc, hname⟩
    obtain ⟨b, hb, hbc⟩ := List.mem_filterMap.1 hc
    obtain rfl := eq_of_name_embedded hrules ht hb ha
      ((name_of_shownWithin hbc).symm.trans hname)
    exact hbc
  · intro h
    exact ⟨List.mem_filterMap.2 ⟨a, ha, h⟩, name_of_shownWithin h⟩

theorem mem_items_iff {t : TypeDef} (ht : g.type? typeName = some t) {f : Field}
    (hf : f ∈ selectedFields o t) {s : Selection} :
    s ∈ identity ++ (selectedFields o t).map (g.shape o) ∧ s.name = f.name ↔
      s = g.shape o f := by
  constructor
  · rintro ⟨hs, hname⟩
    rcases List.mem_append.1 hs with hs | hs
    · have hsystem : s.name ∈ systemFields := List.mem_map_of_mem hs
      exact absurd (hname ▸ hsystem) (not_mem_systemFields hf)
    · obtain ⟨b, hb, rfl⟩ := List.mem_map.1 hs
      rw [name_shape] at hname
      rw [List.inj_on_of_nodup_map (nodup_selected_names hrules ht o) hb hf hname]
  · rintro rfl
    exact ⟨List.mem_append_right _ (List.mem_map_of_mem hf), name_shape o f⟩

/-- A page is only shown among the instances. Each inline type that is gone into takes away from
the room there is for others, until none is left. -/
theorem Shown.within {t : TypeDef} (ht : g.type? typeName = some t) {n : Nat} {f : Field}
    {s : Selection} (h : g.Shown (selectedFields o t)
      (identity ++ (selectedFields o t).map (g.shape o)) n f s) :
    n ≤ 2 ∧ if g.pages f then s = relationList o f else g.shownWithin (2 - n) f = some s := by
  induction h with
  | @selected f s hf hs hname =>
    obtain rfl := (mem_items_iff hrules ht hf).1 ⟨hs, hname⟩
    refine ⟨Nat.zero_le 2, ?_⟩
    split
    · rename_i hpages
      exact shape_of_pages o hpages
    · rename_i hpages
      exact shownWithin_two o (Bool.not_eq_true _ ▸ hpages)
  | @inside n f a s c u _ hu ha hc hname ih =>
    rw [if_neg (by simp [pages_of_embedded hu])] at ih
    obtain ⟨hn, hs⟩ := ih
    have hlist := embeddable_of_embedded hrules hu a ha
    have hpages : g.pages a = false := by rw [pages, hlist, Bool.false_and]
    rw [if_neg (by simp [hpages])]
    obtain ⟨below, hroom, rfl⟩ := room_of_embedded hu hs
    have hleft : 2 - (n + 1) = below := by omega
    rw [hleft]
    exact ⟨by omega, (mem_children_iff hrules hu ha).1 ⟨hc, hname⟩⟩

theorem Shown.room {t u : TypeDef} (ht : g.type? typeName = some t) {n : Nat} {f : Field}
    {s : Selection} (h : g.Shown (selectedFields o t)
      (identity ++ (selectedFields o t).map (g.shape o)) n f s) (hu : g.embedded? f = some u) :
    ∃ below, 2 - n = below + 1 ∧
      s = .node f.name (u.fields.values.filterMap (g.shownWithin below)) := by
  have hs := (h.within hrules ht).2
  rw [if_neg (by simp [pages_of_embedded hu])] at hs
  exact room_of_embedded hu hs

end Rules

end Graph

end SchemaGraph
