import SchemaGraph.Proofs.Graph.FieldUpdates

/-! Adding a field. A new field comes last, and one that is there already is updated where it
stands; either way the type then has a field that adding it again leaves alone. A field that was
new can be taken away again without a trace. -/

namespace SchemaGraph

namespace Keyed

variable {α : Type} {m : Keyed α} {k : String}

theorem filter_ne_keys (h : k ∉ m.keys) : (m.keys.filter fun i => i ≠ k) = m.keys := by
  refine List.filter_eq_self.2 fun i hi => decide_eq_true ?_
  rintro rfl
  exact h hi

theorem assign_get? (k : String) : m.assign k (m.get? k) = m := by
  apply eq_of_get?
  · cases hv : m.get? k with
    | some v => exact keys_assign_of_mem (mem_keys_of_get? hv) v
    | none => rw [keys_assign_none, filter_ne_keys (get?_eq_none_iff.1 hv)]
  · intro i
    rw [get?_assign]
    split
    · rename_i hi
      rw [hi]
    · rfl

theorem assign_again (k : String) (v : α) :
    (m.assign k (some v)).assign k (some v) = m.assign k (some v) := by
  have h := assign_get? (m := m.assign k (some v)) k
  rwa [get?_assign, if_pos rfl] at h

theorem assign_assign_get? (k : String) (v : α) :
    (m.assign k (some v)).assign k (m.get? k) = m := by
  apply eq_of_get?
  · cases hw : m.get? k with
    | some w =>
      have hk : k ∈ m.keys := mem_keys_of_get? hw
      have hkeys : (m.assign k (some v)).keys = m.keys := keys_assign_of_mem hk v
      rw [keys_assign_of_mem (hkeys ▸ hk), hkeys]
    | none =>
      have hk : k ∉ m.keys := get?_eq_none_iff.1 hw
      rw [keys_assign_none, keys_assign_some, if_neg hk, List.filter_append, filter_ne_keys hk]
      simp
  · intro i
    rw [get?_assign, get?_assign]
    split
    · rename_i hi
      rw [hi]
    · rfl

end Keyed

/-! The field -/

/-- The field has all that the properties give. Without a description there, it has that of the
field before it, if there was one. -/
structure FieldProps.Gives (p : FieldProps) (before : Option Field) (f : Field) : Prop where
  arguments : f.arguments = p.arguments
  description : f.description = p.description.or (before.bind Field.description)
  directives : f.directives = p.directives
  typeName : f.type.name = p.typeName
  isList : f.type.isList = p.isList
  isNonNull : f.type.isNonNull = p.isNonNull
  isCustom : f.type.isCustom = !Builtin.isScalar p.typeName

namespace FieldProps

variable {p : FieldProps} {before : Option Field} {f : Field} {name : String}

def added (p : FieldProps) (name : String) : Option Field → Field
  | none => p.toField name
  | some f => f.updated p.toUpdates

theorem gives_added (p : FieldProps) (name : String) (before : Option Field) :
    p.Gives before (p.added name before) := by
  cases before with
  | none =>
    have hdescription : p.description = p.description.or none := p.description.or_none.symm
    exact ⟨rfl, hdescription, rfl, rfl, rfl, rfl, rfl⟩
  | some f =>
    have h : p.toUpdates.Turns f (f.updated p.toUpdates) := FieldUpdates.turns_iff.2 rfl
    exact ⟨h.arguments, h.description, h.directives, h.typeName, h.isList, h.isNonNull,
      h.isCustom⟩

theorem name_added (hname : ∀ f, before = some f → f.name = name) :
    (p.added name before).name = name := by
  cases before with
  | none => rfl
  | some f => exact hname f rfl

theorem Gives.added_eq (h : p.Gives before f) : p.added name (some f) = f := by
  have hdescription : f.description = p.description.or f.description := by
    rw [h.description]
    cases p.description <;> rfl
  have hturns : p.toUpdates.Turns f f :=
    ⟨h.arguments, hdescription, h.directives, rfl, h.typeName, h.isList, h.isNonNull, h.isCustom⟩
  exact (FieldUpdates.turns_iff.1 hturns).symm

def IsRelationList (p : FieldProps) : Prop :=
  p.isList = true ∧ Builtin.isFieldType p.typeName = false

theorem Gives.isRelationList_iff (h : p.Gives before f) :
    (f.isRelation && f.type.isList) = true ↔ p.IsRelationList := by
  rw [Field.isRelation, h.isCustom, h.typeName, h.isList, IsRelationList, Builtin.isFieldType]
  simp [and_comm]

end FieldProps

namespace Graph

variable {g g' : Graph} {typeName fieldName : String} {t : TypeDef} {p : FieldProps}

/-! The field put in its place -/

theorem withField_again (g : Graph) (typeName fieldName : String) (f : Field) :
    (g.withField typeName fieldName (some f)).withField typeName fieldName (some f) =
      g.withField typeName fieldName (some f) := by
  unfold withField
  rw [Keyed.modify_modify]
  simp only [TypeDef.assign, Keyed.assign_again]

theorem type?_withField_self (ht : g.type? typeName = some t) (o : Option Field) :
    (g.withField typeName fieldName o).type? typeName = some (t.assign fieldName o) := by
  rw [type?_withField, if_pos rfl, ht]
  rfl

theorem withField_back (ht : g.type? typeName = some t) (f : Field) :
    (g.withField typeName fieldName (some f)).withField typeName fieldName
      (g.field? typeName fieldName) = g := by
  have hfields : (t.assign fieldName (some f)).fields.assign fieldName
      (g.field? typeName fieldName) = t.fields := by
    rw [field?_eq ht]
    exact Keyed.assign_assign_get? fieldName f
  rw [← setFields_eq_withField (type?_withField_self ht (some f)), hfields,
    ← setFields_eq_withField ht, setFields_setFields ht]

/-! The addition -/

structure Accepts (g : Graph) (t : TypeDef) (fieldName : String) (p : FieldProps) : Prop where
  resolves : g.resolves p.typeName = true
  name : t.fields.contains fieldName = true ∨ ValidName fieldName
  embeddable : ¬(t.isInline = true ∧ p.IsRelationList)

theorem admits_iff_of_gives (ht : g.type? typeName = some t) {before : Option Field} {f : Field}
    (hname : f.name = fieldName) (h : p.Gives before f) : g.Admits typeName fieldName f ↔
      g.resolves p.typeName = true ∧ ¬(t.isInline = true ∧ p.IsRelationList) := by
  have hinline : (t.isInline && f.isRelation && f.type.isList) = false ↔
      ¬(t.isInline = true ∧ p.IsRelationList) := by
    rw [← h.isRelationList_iff, Bool.and_assoc, ← Bool.not_eq_true, Bool.and_eq_true]
  rw [← h.typeName, ← hinline]
  constructor
  · rintro ⟨-, hresolves, hembeddable⟩
    exact ⟨hresolves, hembeddable t ht⟩
  · rintro ⟨hresolves, hembeddable⟩
    refine ⟨hname.symm, hresolves, fun u hu => ?_⟩
    obtain rfl : t = u := Option.some.inj (ht.symm.trans hu)
    exact hembeddable

theorem rules_added_iff (hrules : g.violations = []) (ht : g.type? typeName = some t)
    (fieldName : String) (p : FieldProps) : (g.withField typeName fieldName
        (some (p.added fieldName (g.field? typeName fieldName)))).violations = [] ↔
      g.resolves p.typeName = true ∧ ¬(t.isInline = true ∧ p.IsRelationList) := by
  have hhas : g.hasType typeName = true := (type?_isSome_iff g typeName).1 ⟨t, ht⟩
  have hname : (p.added fieldName (g.field? typeName fieldName)).name = fieldName := by
    refine FieldProps.name_added fun f hf => field_name_eq hrules ht ?_
    rwa [field?_eq ht] at hf
  rw [rules_withField_iff hrules hhas, ← admits_iff_of_gives ht hname (p.gives_added ..)]
  simp only [Option.some.injEq, forall_eq']

/-- Both ways of adding a field put the same field, and succeed under the same conditions but for a
name that is there already. -/
theorem addField_eq_ok_iff_added (hrules : g.violations = []) :
    g.addField typeName fieldName p = .ok g' ↔ ∃ t, g.type? typeName = some t ∧
      g.Accepts t fieldName p ∧ g.withField typeName fieldName
        (some (p.added fieldName (g.field? typeName fieldName))) = g' := by
  have hset := fun t (ht : g.type? typeName = some t) => rules_added_iff hrules ht fieldName p
  cases hlook : g.field? typeName fieldName with
  | none =>
    rw [hlook] at hset
    rw [addField_eq_ok_iff_withField hlook, ← type?_isSome_iff]
    constructor
    · rintro ⟨⟨t, ht⟩, hvalid, hresolves, hrules', hg'⟩
      have hname : ValidName fieldName := (isValidName_iff fieldName).1 hvalid
      exact ⟨t, ht, ⟨hresolves, .inr hname, ((hset t ht).1 hrules').2⟩, hg'⟩
    · rintro ⟨t, ht, ⟨hresolves, hname, hembeddable⟩, hg'⟩
      have hfree : t.fields.contains fieldName = false := by
        rw [field?_eq ht] at hlook
        exact Option.isSome_eq_false_iff.2 (Option.isNone_iff_eq_none.2 hlook)
      have hvalid : ValidName fieldName :=
        hname.resolve_left fun hthere => Bool.false_ne_true (hfree.symm.trans hthere)
      exact ⟨⟨t, ht⟩, (isValidName_iff fieldName).2 hvalid, hresolves,
        (hset t ht).2 ⟨hresolves, hembeddable⟩, hg'⟩
  | some f =>
    rw [hlook] at hset
    rw [addField_eq_ok_iff_of_there hlook]
    obtain ⟨t, ht, hf⟩ := Option.bind_eq_some_iff.1 hlook
    have hthere : t.fields.contains fieldName = true := Option.isSome_iff_exists.2 ⟨f, hf⟩
    constructor
    · rintro ⟨hresolves, hrules', hg'⟩
      exact ⟨t, ht, ⟨hresolves, .inl hthere, ((hset t ht).1 hrules').2⟩, hg'⟩
    · rintro ⟨u, hu, ⟨hresolves, -, hembeddable⟩, hg'⟩
      exact ⟨hresolves, (hset u hu).2 ⟨hresolves, hembeddable⟩, hg'⟩

structure AddedIn (g g' : Graph) (typeName fieldName : String) (p : FieldProps) : Prop where
  typeNames : g'.typeNames = g.typeNames
  others : ∀ name, name ≠ typeName → g'.type? name = g.type? name
  field : ∃ t f fields, g.type? typeName = some t ∧ g'.type? typeName = some { t with fields } ∧
    f.name = fieldName ∧ p.Gives (t.field? fieldName) f ∧
      fields.entries = if t.fields.contains fieldName then
          t.fields.entries.map fun e => if e.1 = fieldName then (fieldName, f) else e
        else t.fields.entries ++ [(fieldName, f)]

/-- When a field can be added and what that changes. To add it again changes nothing more, and to
remove it, if it was new, leads back. -/
structure AddsFields (g : Graph) : Prop where
  adds_iff : ∀ typeName fieldName p, (∃ g', g.addField typeName fieldName p = .ok g') ↔
    ∃ t, g.type? typeName = some t ∧ g.Accepts t fieldName p
  added : ∀ typeName fieldName p g', g.addField typeName fieldName p = .ok g' →
    g.AddedIn g' typeName fieldName p
  again : ∀ typeName fieldName p g', g.addField typeName fieldName p = .ok g' →
    g'.addField typeName fieldName p = .ok g'
  back : ∀ typeName fieldName p g', g.hasField typeName fieldName = false →
    g.addField typeName fieldName p = .ok g' → g'.removeField typeName fieldName = .ok g

theorem addedIn_withField (hrules : g.violations = []) (ht : g.type? typeName = some t) :
    g.AddedIn (g.withField typeName fieldName
      (some (p.added fieldName (g.field? typeName fieldName)))) typeName fieldName p where
  typeNames := Keyed.keys_modify ..
  others name hne := by rw [type?_withField, if_neg hne]
  field := by
    rw [field?_eq ht]
    refine ⟨t, p.added fieldName (t.field? fieldName), _, ht, type?_withField_self ht _,
      FieldProps.name_added fun f hf => field_name_eq hrules ht hf, p.gives_added .., ?_⟩
    show (t.fields.insert fieldName _).entries = _
    split
    · rename_i hthere
      have hk : fieldName ∈ t.fields.keys := (Keyed.contains_iff_mem_keys ..).1 hthere
      rw [Keyed.insert_eq_replace hk, Keyed.entries_replace (.inl rfl)]
    · rename_i hfree
      have hk : fieldName ∉ t.fields.keys :=
        Keyed.contains_eq_false_iff.1 (Bool.eq_false_iff.2 hfree)
      exact Keyed.entries_insert_of_not_mem _ _ _ hk

theorem Accepts.withField (h : g.Accepts t fieldName p) (f : Field) : Accepts
    (g.withField typeName fieldName (some f)) (t.assign fieldName (some f)) fieldName p where
  resolves := (resolves_withField (some f)).symm ▸ h.resolves
  name := by
    refine .inl ?_
    rw [TypeDef.assign, Keyed.contains, Keyed.get?_assign, if_pos rfl]
    rfl
  embeddable := h.embeddable

theorem addField_again (hrules : g.violations = [])
    (h : g.addField typeName fieldName p = .ok g') :
    g'.addField typeName fieldName p = .ok g' := by
  have hedit : g.apply (.addField typeName fieldName p) = .ok g' := h
  have hrules' : g'.violations = [] := rules_of_checksRules rfl hedit
  obtain ⟨t, ht, haccepts, rfl⟩ := (addField_eq_ok_iff_added hrules).1 h
  have hgives := p.gives_added fieldName (g.field? typeName fieldName)
  generalize p.added fieldName (g.field? typeName fieldName) = f at *
  have hhas : g.hasType typeName = true := (type?_isSome_iff g typeName).1 ⟨t, ht⟩
  have hfound : (g.withField typeName fieldName (some f)).field? typeName fieldName = some f := by
    rw [field?_withField hhas, if_pos ⟨rfl, rfl⟩]
  refine (addField_eq_ok_iff_added hrules').2
    ⟨_, type?_withField_self ht (some f), haccepts.withField f, ?_⟩
  rw [hfound, hgives.added_eq, withField_again]

theorem removeField_back (hrules : g.violations = []) (hnew : g.hasField typeName fieldName = false)
    (h : g.addField typeName fieldName p = .ok g') :
    g'.removeField typeName fieldName = .ok g := by
  have hnone : g.field? typeName fieldName = none :=
    Option.isNone_iff_eq_none.1 (Option.isSome_eq_false_iff.1 hnew)
  obtain ⟨t, ht, -, rfl⟩ := (addField_eq_ok_iff_added hrules).1 h
  generalize p.added fieldName (g.field? typeName fieldName) = f
  have hhas : g.hasType typeName = true := (type?_isSome_iff g typeName).1 ⟨t, ht⟩
  have hback : (g.withField typeName fieldName (some f)).withField typeName fieldName none = g :=
    hnone ▸ withField_back ht f
  refine removeField_eq_ok_iff_withField.2 ⟨⟨f, ?_⟩, hback.symm ▸ hrules, hback⟩
  rw [field?_withField hhas, if_pos ⟨rfl, rfl⟩]

theorem addsFields (hrules : g.violations = []) : g.AddsFields where
  adds_iff typeName fieldName p := by
    constructor
    · rintro ⟨g', h⟩
      obtain ⟨t, ht, haccepts, -⟩ := (addField_eq_ok_iff_added hrules).1 h
      exact ⟨t, ht, haccepts⟩
    · rintro ⟨t, ht, haccepts⟩
      exact ⟨_, (addField_eq_ok_iff_added hrules).2 ⟨t, ht, haccepts, rfl⟩⟩
  added typeName fieldName p g' h := by
    obtain ⟨t, ht, -, rfl⟩ := (addField_eq_ok_iff_added hrules).1 h
    exact addedIn_withField hrules ht
  again _ _ _ _ h := addField_again hrules h
  back _ _ _ _ hnew h := removeField_back hrules hnew h

/-- A new field comes last and goes again. One that is there keeps its place and its description. -/
theorem addsFields_of_described_body :
    let body : Field :=
      { Field.make "body" (.make "String" false true) with description := some "The text." }
    let post := ((TypeDef.make "Post" .object).withField body).withField
      (.make "title" (.make "String" false true))
    let g : Graph := ⟨Keyed.ofList [("Post", post)]⟩
    let p : FieldProps := ⟨[], none, [], true, false, "Post"⟩
    let fieldNames := fun g' : Graph => (g'.type? "Post").map fun t => t.fields.keys
    g.violations = [] ∧ g.AddsFields ∧
      (∃ g', g.addField "Post" "related" p = .ok g' ∧
        fieldNames g' = some ["body", "title", "related"] ∧
          g'.addField "Post" "related" p = .ok g' ∧ g'.removeField "Post" "related" = .ok g) ∧
      ∃ g', g.addField "Post" "body" p = .ok g' ∧ fieldNames g' = some ["body", "title"] ∧
        ∃ f, g'.field? "Post" "body" = some f ∧ f.type.name = "Post" ∧
          f.description = some "The text." := by
  intro body post g p fieldNames
  have hrules : g.violations = [] := by decide +kernel
  have hadds := addsFields hrules
  have hnew : (g.addField "Post" "related" p).toOption.map fieldNames =
      some (some ["body", "title", "related"]) := by decide +kernel
  have hthere : (g.addField "Post" "body" p).toOption.map fieldNames =
      some (some ["body", "title"]) := by decide +kernel
  obtain ⟨g₁, h₁, hnames₁⟩ := exists_eq_ok_of_map hnew
  obtain ⟨g₂, h₂, hnames₂⟩ := exists_eq_ok_of_map hthere
  refine ⟨hrules, hadds, ⟨g₁, h₁, hnames₁, hadds.again _ _ _ _ h₁, ?_⟩, g₂, h₂, hnames₂, ?_⟩
  · exact hadds.back "Post" "related" p g₁ (by decide +kernel) h₁
  · obtain ⟨t, f, fields, ht, ht', -, hgives, hentries⟩ := (hadds.added _ _ _ _ h₂).field
    obtain rfl : post = t := Option.some.inj ht
    have hmem : ("body", f) ∈ fields.entries := by
      rw [hentries]
      exact List.mem_cons_self
    have hf : fields.get? "body" = some f := Keyed.get?_of_mem_entries hmem
    exact ⟨f, (field?_eq ht' "body").trans hf, hgives.typeName, hgives.description⟩

end Graph

end SchemaGraph
