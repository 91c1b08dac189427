import SchemaGraph.Proofs.Graph.Equality

/-! Edits of single fields. Such an edit is told by the field it is about, by what it makes of that
field, and by what the rules ask of the outcome. None of the three depends on any other field, so
edits of different fields can be made in either order. -/

namespace SchemaGraph

namespace Keyed

variable {α : Type} {m : Keyed α} {k k' : String}

def assign (m : Keyed α) (k : String) : Option α → Keyed α
  | some v => m.insert k v
  | none => m.erase k

theorem get?_assign (k : String) (o : Option α) (i : String) :
    (m.assign k o).get? i = if i = k then o else m.get? i := by
  cases o with
  | some v => exact get?_insert m k i v
  | none => exact get?_erase k i

theorem keys_assign_some (k : String) (v : α) :
    (m.assign k (some v)).keys = if k ∈ m.keys then m.keys else m.keys ++ [k] := keys_insert m k v

theorem keys_assign_none (k : String) :
    (m.assign k none).keys = m.keys.filter fun i => i ≠ k := keys_erase m k

theorem keys_assign_of_mem (h : k ∈ m.keys) (v : α) : (m.assign k (some v)).keys = m.keys := by
  rw [keys_assign_some, if_pos h]

theorem mem_keys_assign_of_ne (hne : k ≠ k') (o : Option α) :
    k ∈ (m.assign k' o).keys ↔ k ∈ m.keys := by
  rw [← contains_iff_mem_keys, ← contains_iff_mem_keys, contains, contains, get?_assign, if_neg hne]

theorem keys_assign_erase (hne : k ≠ k') (v : α) :
    ((m.assign k (some v)).assign k' none).keys = ((m.assign k' none).assign k (some v)).keys := by
  rw [keys_assign_none, keys_assign_some, keys_assign_some]
  simp only [mem_keys_assign_of_ne hne]
  split
  · rw [keys_assign_none]
  · rw [keys_assign_none, List.filter_append]
    simp [hne]

theorem keys_assign_comm_of_mem (hne : k ≠ k') (h : k ∈ m.keys) (v : α) (o : Option α) :
    ((m.assign k (some v)).assign k' o).keys = ((m.assign k' o).assign k (some v)).keys := by
  cases o with
  | none => exact keys_assign_erase hne v
  | some w =>
    rw [keys_assign_of_mem ((mem_keys_assign_of_ne hne _).2 h), keys_assign_some k',
      keys_assign_some k', keys_assign_of_mem h]

/-- The order of two new keys is that in which they come; nothing else depends on it. -/
theorem assign_comm (hne : k ≠ k') {o o' : Option α} (h : o = none ∨ k ∈ m.keys ∨
      o' = none ∨ k' ∈ m.keys) :
    (m.assign k o).assign k' o' = (m.assign k' o').assign k o := by
  apply eq_of_get?
  · cases o with
    | none =>
      cases o' with
      | none =>
        rw [keys_assign_none, keys_assign_none, keys_assign_none, keys_assign_none,
          List.filter_filter, List.filter_filter]
        simp only [Bool.and_comm]
      | some w => exact (keys_assign_erase hne.symm w).symm
    | some v =>
      rcases h with h | h | rfl | h
      · cases h
      · exact keys_assign_comm_of_mem hne h v o'
      · exact keys_assign_erase hne v
      · cases o' with
        | none => exact keys_assign_erase hne v
        | some w => exact (keys_assign_comm_of_mem hne.symm h w (some v)).symm
  · intro i
    rw [get?_assign, get?_assign, get?_assign, get?_assign]
    by_cases hi : i = k
    · rw [if_pos hi, if_pos hi, if_neg (hi ▸ hne)]
    · rw [if_neg hi, if_neg hi]

theorem Alike.assign_comm {R : α → α → Prop} {a b : Keyed α} (h : Alike R a b) (hne : k ≠ k')
    (hR : ∀ v, R v v) (o o' : Option α) :
    Alike R ((a.assign k o).assign k' o') ((b.assign k' o').assign k o) := by
  intro i
  rw [get?_assign, get?_assign, get?_assign, get?_assign]
  by_cases hi : i = k
  · rw [if_pos hi, if_pos hi, if_neg (hi ▸ hne)]
    exact rel_refl hR o
  · rw [if_neg hi, if_neg hi]
    split
    · exact rel_refl hR o'
    · exact h i

end Keyed

/-! One field of a graph -/

def TypeDef.assign (t : TypeDef) (fieldName : String) (o : Option Field) : TypeDef :=
  { t with fields := t.fields.assign fieldName o }

theorem TypeDef.assign_comm (t : TypeDef) {k k' : String} (hne : k ≠ k') {o o' : Option Field}
    (h : o = none ∨ k ∈ t.fields.keys ∨ o' = none ∨ k' ∈ t.fields.keys) :
    (t.assign k o).assign k' o' = (t.assign k' o').assign k o := by
  simp only [TypeDef.assign, Keyed.assign_comm hne h]

theorem TypeDef.Alike.assign_comm {t u : TypeDef} (h : t.Alike u) {k k' : String} (hne : k ≠ k')
    (o o' : Option Field) : ((t.assign k o).assign k' o').Alike ((u.assign k' o').assign k o) :=
  h.withFields (h.fields.assign_comm hne Field.alike_refl o o')

namespace Graph

variable {g g' : Graph} {typeName fieldName : String}

def withField (g : Graph) (typeName fieldName : String) (o : Option Field) : Graph :=
  ⟨g.types.modify typeName fun t => t.assign fieldName o⟩

structure Admits (g : Graph) (typeName fieldName : String) (f : Field) : Prop where
  key : fieldName = f.name
  resolves : g.resolves f.type.name = true
  embeddable : ∀ t, g.type? typeName = some t →
    (t.isInline && f.isRelation && f.type.isList) = false

theorem setFields_eq_withField {t : TypeDef} (ht : g.type? typeName = some t) (fieldName : String)
    (o : Option Field) :
    g.setFields typeName (t.fields.assign fieldName o) = g.withField typeName fieldName o := by
  unfold setFields withField
  congr 1
  refine Keyed.modify_congr fun u hu => ?_
  have hut : t = u := Option.some.inj (ht.symm.trans hu)
  rw [hut]
  rfl

theorem field?_eq {t : TypeDef} (ht : g.type? typeName = some t) (fieldName : String) :
    g.field? typeName fieldName = t.field? fieldName := by
  rw [field?, ht]
  rfl

theorem type?_withField (o : Option Field) (name : String) :
    (g.withField typeName fieldName o).type? name = if name = typeName then
      (g.type? name).map fun t => t.assign fieldName o
    else g.type? name :=
  Keyed.get?_modify ..

theorem hasType_withField (o : Option Field) (name : String) :
    (g.withField typeName fieldName o).hasType name = g.hasType name := by
  show ((g.withField typeName fieldName o).type? name).isSome = (g.type? name).isSome
  rw [type?_withField]
  split
  · exact Option.isSome_map
  · rfl

theorem resolves_withField (o : Option Field) :
    (g.withField typeName fieldName o).resolves = g.resolves := by
  funext name
  rw [resolves, resolves, hasType_withField]

theorem field?_withField (hhas : g.hasType typeName = true) (o : Option Field)
    (name key : String) : (g.withField typeName fieldName o).field? name key =
      if name = typeName ∧ key = fieldName then o else g.field? name key := by
  unfold field?
  rw [type?_withField]
  by_cases hname : name = typeName
  · obtain ⟨t, ht⟩ := (type?_isSome_iff g typeName).2 hhas
    rw [if_pos hname, hname, ht]
    show (t.fields.assign fieldName o).get? key = _
    rw [Keyed.get?_assign]
    by_cases hkey : key = fieldName
    · rw [if_pos hkey, if_pos ⟨rfl, hkey⟩]
    · rw [if_neg hkey, if_neg fun hboth => hkey hboth.2]
      rfl
  · rw [if_neg hname, if_neg fun hboth => hname hboth.1]

theorem admits_withField (o : Option Field) (name key : String) (f : Field) :
    (g.withField typeName fieldName o).Admits name key f ↔ g.Admits name key f := by
  have hinline : (∀ t, (g.withField typeName fieldName o).type? name = some t →
      (t.isInline && f.isRelation && f.type.isList) = false) ↔
        ∀ t, g.type? name = some t → (t.isInline && f.isRelation && f.type.isList) = false := by
    rw [type?_withField]
    split
    · simp only [Option.map_eq_some_iff]
      constructor
      · intro h t ht
        exact h (t.assign fieldName o) ⟨t, ht, rfl⟩
      · rintro h _ ⟨t, ht, rfl⟩
        exact h t ht
    · rfl
  constructor
  · rintro ⟨hkey, hresolves, hembeddable⟩
    exact ⟨hkey, resolves_withField o ▸ hresolves, hinline.1 hembeddable⟩
  · rintro ⟨hkey, hresolves, hembeddable⟩
    exact ⟨hkey, (resolves_withField o).symm ▸ hresolves, hinline.2 hembeddable⟩

theorem rules_iff_admits : g.violations = [] ↔ (g.types.All fun key t => key = t.name) ∧
    ∀ name key f, g.field? name key = some f → g.Admits name key f := by
  rw [violations_eq_nil_iff]
  constructor
  · intro h
    refine ⟨h.imp fun _ _ ht => ht.1, fun name key f hf => ?_⟩
    obtain ⟨t, ht, hf⟩ := Option.bind_eq_some_iff.1 hf
    obtain ⟨hkey, hresolves, hembeddable⟩ := (h.get? ht).2.get? hf
    refine ⟨hkey, hresolves, fun u hu => ?_⟩
    obtain rfl : t = u := Option.some.inj (ht.symm.trans hu)
    exact hembeddable
  · rintro ⟨hkeys, hfields⟩
    refine Keyed.all_iff_get?.2 fun name t ht => ⟨hkeys.get? ht, ?_⟩
    refine Keyed.all_iff_get?.2 fun key f hf => ?_
    have hadmits := hfields name key f ((field?_eq ht key).trans hf)
    exact ⟨hadmits.key, hadmits.resolves, hadmits.embeddable t ht⟩

theorem rules_withField_iff (hrules : g.violations = []) (hhas : g.hasType typeName = true)
    (o : Option Field) : (g.withField typeName fieldName o).violations = [] ↔
      ∀ f, o = some f → g.Admits typeName fieldName f := by
  obtain ⟨hkeys, hfields⟩ := rules_iff_admits.1 hrules
  have hkeys' : (g.withField typeName fieldName o).types.All fun key t => key = t.name :=
    hkeys.modify fun _ ht => ht
  rw [rules_iff_admits]
  simp only [admits_withField, field?_withField hhas]
  constructor
  · rintro ⟨-, h⟩ f hf
    exact h typeName fieldName f ((if_pos ⟨rfl, rfl⟩).trans hf)
  · intro h
    refine ⟨hkeys', fun name key f hf => ?_⟩
    split at hf
    · rename_i hplace
      rw [hplace.1, hplace.2]
      exact h f hf
    · exact hfields name key f hf

theorem withField_comm {T₁ F₁ T₂ F₂ : String} (hne : (T₁, F₁) ≠ (T₂, F₂)) {o₁ o₂ : Option Field}
    (h : T₁ = T₂ → o₁ = none ∨ g.hasField T₁ F₁ = true ∨ o₂ = none ∨ g.hasField T₂ F₂ = true) :
    (g.withField T₁ F₁ o₁).withField T₂ F₂ o₂ = (g.withField T₂ F₂ o₂).withField T₁ F₁ o₁ := by
  unfold withField
  congr 1
  by_cases htypes : T₁ = T₂
  · subst htypes
    have hfields : F₁ ≠ F₂ := fun heq => hne (heq ▸ rfl)
    rw [Keyed.modify_modify, Keyed.modify_modify]
    refine Keyed.modify_congr fun t ht => ?_
    have hmem : ∀ {F : String}, g.hasField T₁ F = true → F ∈ t.fields.keys := by
      intro F hF
      rw [hasField, field?_eq ht] at hF
      exact (Keyed.contains_iff_mem_keys t.fields F).1 hF
    apply t.assign_comm hfields
    rcases h rfl with hnone | hthere | hnone | hthere
    · exact .inl hnone
    · exact .inr (.inl (hmem hthere))
    · exact .inr (.inr (.inl hnone))
    · exact .inr (.inr (.inr (hmem hthere)))
  · exact Keyed.modify_comm (m := g.types) htypes (fun t => t.assign F₁ o₁) fun t => t.assign F₂ o₂

theorem alike_withField_comm {T₁ F₁ T₂ F₂ : String} (hne : (T₁, F₁) ≠ (T₂, F₂))
    (o₁ o₂ : Option Field) : ((g.withField T₁ F₁ o₁).withField T₂ F₂ o₂).Alike
      ((g.withField T₂ F₂ o₂).withField T₁ F₁ o₁) := by
  by_cases htypes : T₁ = T₂
  · subst htypes
    have hfields : F₁ ≠ F₂ := fun heq => hne (heq ▸ rfl)
    unfold Alike withField
    rw [Keyed.modify_modify, Keyed.modify_modify]
    have hrefl : Keyed.Alike TypeDef.Alike g.types g.types := Keyed.alike_refl TypeDef.alike_refl
    exact hrefl.modify T₁ fun t u htu => htu.assign_comm hfields o₁ o₂
  · rw [withField_comm hne fun heq => absurd heq htypes]
    exact Keyed.alike_refl TypeDef.alike_refl

end Graph

/-! Edits of one field -/

namespace Edit

inductive EditsField (typeName fieldName : String) : Edit → Prop
  | add (p : FieldProps) : EditsField typeName fieldName (.addField typeName fieldName p)
  | update {u : FieldUpdates} (h : ∀ new, u.name = some new → new = fieldName) :
      EditsField typeName fieldName (.updateField typeName fieldName u)
  | remove : EditsField typeName fieldName (.removeField typeName fieldName)

def Appends (e : Edit) (g : Graph) (typeName : String) : Prop :=
  ∃ fieldName p, e = .addField typeName fieldName p ∧ g.hasField typeName fieldName = false

/-- What the edit makes of the field that is there, or of none, when it may refer to the names that
`known` tells. -/
inductive Makes (known : String → Bool) (typeName fieldName : String) :
    Edit → Option Field → Option Field → Prop
  | add {p : FieldProps} (hvalid : isValidName fieldName = true)
      (hknown : known p.typeName = true) : Makes known typeName fieldName
        (.addField typeName fieldName p) none (some (p.toField fieldName))
  | readd {p : FieldProps} {f : Field} (hknown : known p.typeName = true) :
      Makes known typeName fieldName
        (.addField typeName fieldName p) (some f) (some (f.updated p.toUpdates))
  | update {u : FieldUpdates} {f : Field} (hname : ∀ new, u.name = some new → new = fieldName)
      (hknown : ∀ r, u.typeName = some r → known r = true) : Makes known typeName fieldName
        (.updateField typeName fieldName u) (some f) (some (f.updated u))
  | remove {f : Field} : Makes known typeName fieldName
      (.removeField typeName fieldName) (some f) none

end Edit

namespace Graph

variable {g g' : Graph} {typeName fieldName : String}

theorem updateField_eq_ok_iff_withField {u : FieldUpdates}
    (hname : ∀ new, u.name = some new → new = fieldName) :
    g.updateField typeName fieldName u = .ok g' ↔ ∃ f, g.field? typeName fieldName = some f ∧
      (∀ r, u.typeName = some r → g.resolves r = true) ∧
        (g.withField typeName fieldName (some (f.updated u))).violations = [] ∧
          g.withField typeName fieldName (some (f.updated u)) = g' := by
  rw [updateField_eq_ok_iff]
  constructor
  · rintro ⟨t, f, fields, ht, hf, hresolves, hplace, hrules, rfl⟩
    rcases (t.placeField_eq_ok_iff ..).1 hplace with ⟨-, rfl⟩ | ⟨new, hnew, hne, -⟩
    · have hset := setFields_eq_withField ht fieldName (some (f.updated u))
      exact ⟨f, (field?_eq ht fieldName).trans hf, hresolves, hset ▸ hrules, hset.symm⟩
    · exact absurd (hname new hnew) hne
  · rintro ⟨f, hf, hresolves, hrules, rfl⟩
    obtain ⟨t, ht, hf⟩ := Option.bind_eq_some_iff.1 hf
    have hset := setFields_eq_withField ht fieldName (some (f.updated u))
    exact ⟨t, f, t.fields.insert fieldName (f.updated u), ht, hf, hresolves,
      (t.placeField_eq_ok_iff ..).2 (.inl ⟨hname, rfl⟩), hset.symm ▸ hrules, hset⟩

theorem addField_eq_of_there {p : FieldProps} {f : Field}
    (hf : g.field? typeName fieldName = some f) :
    g.addField typeName fieldName p = g.updateField typeName fieldName p.toUpdates := by
  obtain ⟨t, ht, hf⟩ := Option.bind_eq_some_iff.1 hf
  have hthere : t.fields.contains fieldName = true := Option.isSome_iff_exists.2 ⟨f, hf⟩
  unfold addField require
  rw [ht]
  exact if_pos hthere

theorem addField_eq_ok_iff_of_there {p : FieldProps} {f : Field}
    (hf : g.field? typeName fieldName = some f) :
    g.addField typeName fieldName p = .ok g' ↔ g.resolves p.typeName = true ∧
      (g.withField typeName fieldName (some (f.updated p.toUpdates))).violations = [] ∧
        g.withField typeName fieldName (some (f.updated p.toUpdates)) = g' := by
  have hname : ∀ new, p.toUpdates.name = some new → new = fieldName := by
    intro new hnew
    cases hnew
  have hknown : (∀ r, p.toUpdates.typeName = some r → g.resolves r = true) ↔
      g.resolves p.typeName = true := by simp [FieldProps.toUpdates]
  rw [addField_eq_of_there hf, updateField_eq_ok_iff_withField hname, hf, hknown]
  constructor
  · rintro ⟨w, hw, hrest⟩
    obtain rfl : f = w := Option.some.inj hw
    exact hrest
  · exact fun hrest => ⟨f, rfl, hrest⟩

theorem addField_eq_ok_iff_withField {p : FieldProps}
    (hnone : g.field? typeName fieldName = none) :
    g.addField typeName fieldName p = .ok g' ↔ g.hasType typeName = true ∧
      isValidName fieldName = true ∧ g.resolves p.typeName = true ∧
        (g.withField typeName fieldName (some (p.toField fieldName))).violations = [] ∧
          g.withField typeName fieldName (some (p.toField fieldName)) = g' := by
  rw [addField_eq_ok_iff, ← type?_isSome_iff, ← exists_and_right]
  refine exists_congr fun t => and_congr_right fun ht => ?_
  have hset := setFields_eq_withField ht fieldName (some (p.toField fieldName))
  have hnew : t.fields.contains fieldName = false := by
    rw [field?_eq ht] at hnone
    exact Option.isSome_eq_false_iff.2 (Option.isNone_iff_eq_none.2 hnone)
  rw [← hset, hnew]
  simp only [Bool.false_eq_true, false_and, true_and, false_or]
  exact Iff.rfl

theorem removeField_eq_ok_iff_withField :
    g.removeField typeName fieldName = .ok g' ↔
      (∃ f, g.field? typeName fieldName = some f) ∧
        (g.withField typeName fieldName none).violations = [] ∧
          g.withField typeName fieldName none = g' := by
  rw [removeField_eq_ok_iff]
  constructor
  · rintro ⟨t, ht, hthere, hrules, rfl⟩
    have hset := setFields_eq_withField ht fieldName none
    obtain ⟨f, hf⟩ := Option.isSome_iff_exists.1 hthere
    exact ⟨⟨f, (field?_eq ht fieldName).trans hf⟩, hset ▸ hrules, hset.symm⟩
  · rintro ⟨⟨f, hf⟩, hrules, rfl⟩
    obtain ⟨t, ht, hf⟩ := Option.bind_eq_some_iff.1 hf
    have hset := setFields_eq_withField ht fieldName none
    exact ⟨t, ht, Option.isSome_iff_exists.2 ⟨f, hf⟩, hset.symm ▸ hrules, hset⟩

/-- Whatever the edit, it looks at its field and at the names of the types, and the rules decide. -/
theorem apply_eq_ok_iff_makes {e : Edit} (he : e.EditsField typeName fieldName) :
    g.apply e = .ok g' ↔ g.hasType typeName = true ∧
      ∃ o, e.Makes g.resolves typeName fieldName (g.field? typeName fieldName) o ∧
        (g.withField typeName fieldName o).violations = [] ∧
          g.withField typeName fieldName o = g' := by
  have hthere : ∀ {f}, g.field? typeName fieldName = some f → g.hasType typeName = true := by
    intro f hf
    obtain ⟨t, ht, -⟩ := Option.bind_eq_some_iff.1 hf
    exact (type?_isSome_iff g typeName).1 ⟨t, ht⟩
  cases he with
  | add p =>
    cases hlook : g.field? typeName fieldName with
    | none =>
      rw [apply, addField_eq_ok_iff_withField hlook]
      constructor
      · rintro ⟨hhas, hvalid, hknown, hrules, hg'⟩
        exact ⟨hhas, _, .add hvalid hknown, hrules, hg'⟩
      · rintro ⟨hhas, o, hmakes, hrules, hg'⟩
        cases hmakes with
        | add hvalid hknown => exact ⟨hhas, hvalid, hknown, hrules, hg'⟩
    | some f =>
      rw [apply, addField_eq_ok_iff_of_there hlook]
      constructor
      · rintro ⟨hknown, hrules, hg'⟩
        exact ⟨hthere hlook, _, .readd hknown, hrules, hg'⟩
      · rintro ⟨-, o, hmakes, hrules, hg'⟩
        cases hmakes with
        | readd hknown => exact ⟨hknown, hrules, hg'⟩
  | @update u hname =>
    rw [apply, updateField_eq_ok_iff_withField hname]
    constructor
    · rintro ⟨f, hf, hknown, hrules, hg'⟩
      exact ⟨hthere hf, _, hf ▸ .update hname hknown, hrules, hg'⟩
    · rintro ⟨-, o, hmakes, hrules, hg'⟩
      generalize hlook : g.field? typeName fieldName = before at hmakes
      cases hmakes with
      | @update _ f _ hknown => exact ⟨f, rfl, hknown, hrules, hg'⟩
  | remove =>
    rw [apply, removeField_eq_ok_iff_withField]
    constructor
    · rintro ⟨⟨f, hf⟩, hrules, hg'⟩
      exact ⟨hthere hf, _, hf ▸ .remove, hrules, hg'⟩
    · rintro ⟨-, o, hmakes, hrules, hg'⟩
      generalize hlook : g.field? typeName fieldName = before at hmakes
      cases hmakes with
      | @remove f => exact ⟨⟨f, rfl⟩, hrules, hg'⟩

theorem apply_eq_ok_iff_admits (hrules : g.violations = []) {e : Edit}
    (he : e.EditsField typeName fieldName) :
    g.apply e = .ok g' ↔ g.hasType typeName = true ∧
      ∃ o, e.Makes g.resolves typeName fieldName (g.field? typeName fieldName) o ∧
        (∀ f, o = some f → g.Admits typeName fieldName f) ∧
          g.withField typeName fieldName o = g' := by
  rw [apply_eq_ok_iff_makes he]
  refine and_congr_right fun hhas => exists_congr fun o => and_congr_right fun _ => ?_
  rw [rules_withField_iff hrules hhas]

theorem appends_of_makes {e : Edit} {known : String → Bool} {f : Field}
    (hmakes : e.Makes known typeName fieldName (g.field? typeName fieldName) (some f))
    (hnew : g.hasField typeName fieldName = false) : e.Appends g typeName := by
  have hnone : g.field? typeName fieldName = none :=
    Option.isNone_iff_eq_none.1 (Option.isSome_eq_false_iff.1 hnew)
  rw [hnone] at hmakes
  cases hmakes with
  | @add p _ _ => exact ⟨fieldName, p, rfl, hnew⟩

theorem apply_withField_eq_ok_iff {T₁ F₁ T₂ F₂ : String} (hne : (T₁, F₁) ≠ (T₂, F₂))
    {o₁ : Option Field} (hhas : g.hasType T₁ = true)
    (hrules : (g.withField T₁ F₁ o₁).violations = []) {e : Edit} (he : e.EditsField T₂ F₂) :
    (g.withField T₁ F₁ o₁).apply e = .ok g' ↔ g.hasType T₂ = true ∧
      ∃ o₂, e.Makes g.resolves T₂ F₂ (g.field? T₂ F₂) o₂ ∧
        (∀ f, o₂ = some f → g.Admits T₂ F₂ f) ∧
          (g.withField T₁ F₁ o₁).withField T₂ F₂ o₂ = g' := by
  have hother : ¬(T₂ = T₁ ∧ F₂ = F₁) := fun heq => hne (by rw [heq.1, heq.2])
  rw [apply_eq_ok_iff_admits hrules he, hasType_withField, resolves_withField,
    field?_withField hhas, if_neg hother]
  simp only [admits_withField]

theorem apply_comm_of_editsField {T₁ F₁ T₂ F₂ : String} {e₁ e₂ : Edit} {g₁ g₂ : Graph}
    (he₁ : e₁.EditsField T₁ F₁) (he₂ : e₂.EditsField T₂ F₂) (hne : (T₁, F₁) ≠ (T₂, F₂))
    (hrules : g.violations = []) (hrun₁ : g.apply e₁ = .ok g₁) (hrun₂ : g.apply e₂ = .ok g₂) :
    ∃ g₁₂ g₂₁, g₁.apply e₂ = .ok g₁₂ ∧ g₂.apply e₁ = .ok g₂₁ ∧ g₁₂.same g₂₁ = true ∧
      ((¬∃ typeName, e₁.Appends g typeName ∧ e₂.Appends g typeName) → g₁₂ = g₂₁) := by
  -- Each edit puts in place what it makes of its own field.
  obtain ⟨hhas₁, o₁, hmakes₁, hadmits₁, rfl⟩ := (apply_eq_ok_iff_admits hrules he₁).1 hrun₁
  obtain ⟨hhas₂, o₂, hmakes₂, hadmits₂, rfl⟩ := (apply_eq_ok_iff_admits hrules he₂).1 hrun₂
  have hrules₁ : (g.withField T₁ F₁ o₁).violations = [] :=
    (rules_withField_iff hrules hhas₁ o₁).2 hadmits₁
  have hrules₂ : (g.withField T₂ F₂ o₂).violations = [] :=
    (rules_withField_iff hrules hhas₂ o₂).2 hadmits₂
  refine ⟨(g.withField T₁ F₁ o₁).withField T₂ F₂ o₂, (g.withField T₂ F₂ o₂).withField T₁ F₁ o₁,
    ?_, ?_, ?_, ?_⟩
  · exact (apply_withField_eq_ok_iff hne hhas₁ hrules₁ he₂).2
      ⟨hhas₂, o₂, hmakes₂, hadmits₂, rfl⟩
  · exact (apply_withField_eq_ok_iff hne.symm hhas₂ hrules₂ he₁).2
      ⟨hhas₁, o₁, hmakes₁, hadmits₁, rfl⟩
  · exact same_iff.2 (alike_withField_comm hne o₁ o₂)
  · intro happends
    refine withField_comm hne fun htypes => ?_
    -- Otherwise both edits leave a field where there was none, on one type.
    by_contra hnot
    simp only [not_or, Bool.not_eq_true] at hnot
    obtain ⟨hsome₁, hnew₁, hsome₂, hnew₂⟩ := hnot
    obtain ⟨f₁, rfl⟩ := Option.ne_none_iff_exists'.1 hsome₁
    obtain ⟨f₂, rfl⟩ := Option.ne_none_iff_exists'.1 hsome₂
    have happends₂ : e₂.Appends g T₁ := htypes ▸ appends_of_makes hmakes₂ hnew₂
    exact happends ⟨T₁, appends_of_makes hmakes₁ hnew₁, happends₂⟩

/-- An inline type gets a field that it has, which becomes a list, and one that is new. -/
theorem apply_comm_of_edited_address :
    let lines : Field := .make "lines" (.make "String" false false)
    let owner : Field := .make "owner" (.make "Person" false true)
    let address := ((TypeDef.make "Address" .object).withField lines).withField owner
    let g : Graph := ⟨Keyed.ofList [("Address", address.withDirective (.named "inline" ∅)),
      ("Person", TypeDef.make "Person" .object)]⟩
    let e₁ : Edit := .addField "Address" "lines" ⟨[], some "Street", [], true, true, "String"⟩
    let e₂ : Edit := .addField "Address" "city" ⟨[], none, [], false, true, "String"⟩
    g.violations = [] ∧ ∃ g₁ g₂ g', g.apply e₁ = .ok g₁ ∧ g.apply e₂ = .ok g₂ ∧
      g₁.hasField "Address" "city" = false ∧ g₂.hasField "Address" "city" = true ∧
        g₁.apply e₂ = .ok g' ∧ g₂.apply e₁ = .ok g' := by
  intro lines owner address g e₁ e₂
  have hrules : g.violations = [] := by decide +kernel
  obtain ⟨g₁, hrun₁, hcity₁⟩ := exists_eq_ok_of_map
    (show (g.apply e₁).toOption.map (fun g => g.hasField "Address" "city") = some false by
      decide +kernel)
  obtain ⟨g₂, hrun₂, hcity₂⟩ := exists_eq_ok_of_map
    (show (g.apply e₂).toOption.map (fun g => g.hasField "Address" "city") = some true by
      decide +kernel)
  have hne : ("Address", "lines") ≠ ("Address", "city") := by decide
  have happends : ¬∃ typeName, e₁.Appends g typeName ∧ e₂.Appends g typeName := by
    rintro ⟨typeName, ⟨fieldName, p, heq, hnew⟩, -⟩
    obtain ⟨rfl, rfl, -⟩ := Edit.addField.inj heq
    exact absurd hnew (by decide +kernel)
  obtain ⟨g', g'', hrun₁₂, hrun₂₁, -, horder⟩ :=
    apply_comm_of_editsField (.add _) (.add _) hne hrules hrun₁ hrun₂
  obtain rfl : g' = g'' := horder happends
  exact ⟨hrules, g₁, g₂, g', hrun₁, hrun₂, hcity₁, hcity₂, hrun₁₂, hrun₂₁⟩

end Graph

end SchemaGraph
