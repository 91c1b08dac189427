import SchemaGraph.Proofs.Graph.Violations

/-! What edits keep up whatever is asked of the keys of types and fields, as long as the names that
edits accept are good enough for it; and with it that the mark of a custom type follows from its
name. -/

namespace SchemaGraph

def FieldType.Settled (t : FieldType) : Prop := t.isCustom = !Builtin.isScalar t.name

namespace TypeDef

/-- Definitions that can be put together from outside: fields enter under their own names and
with types that were made from a name. -/
inductive Built : TypeDef → Prop where
  | make (name : String) (kind : TypeKind) : Built (make name kind)
  | withDescription {t : TypeDef} (h : Built t) (description : String) :
      Built (t.withDescription description)
  | withDirective {t : TypeDef} (h : Built t) (d : Annotation) : Built (t.withDirective d)
  | withField {t : TypeDef} (h : Built t) (name typeName : String) (isList isNonNull : Bool) :
      Built (t.withField (.make name (.make typeName isList isNonNull)))

end TypeDef

def Edit.Built : Edit → Prop
  | .setType _ definition => definition.Built
  | _ => True

structure KeyRule where
  type : String → Prop
  field : String → Prop
  type_of_new : ∀ name, isValidName name = true ∧ isReservedName name = false → type name
  field_of_new : ∀ name, isValidName name = true → field name

def KeyRule.Fields (r : KeyRule) (fields : Keyed Field) : Prop :=
  fields.All fun key f => r.field key ∧ f.type.Settled

def Graph.Follows (r : KeyRule) (g : Graph) : Prop :=
  g.types.All fun key t => r.type key ∧ r.Fields t.fields

theorem FieldType.settled_make (name : String) (isList isNonNull : Bool) :
    (make name isList isNonNull).Settled := rfl

theorem FieldType.Settled.updated {t : FieldType} (h : t.Settled) (u : FieldUpdates) :
    (t.updated u).Settled := by
  unfold FieldType.updated
  cases u.typeName with
  | none => exact h
  | some name => exact rfl

namespace KeyRule

variable {r : KeyRule}

theorem Fields.renameReferences {t : TypeDef} (h : r.Fields t.fields) (old new : String) :
    r.Fields (t.renameReferences old new).fields := by
  refine Keyed.All.mapValues (R := fun key (f : Field) => r.field key ∧ f.type.Settled) h
    fun key f hf => ⟨hf.1, ?_⟩
  split
  · exact rfl
  · exact hf.2

theorem fields_of_built {t : TypeDef} (h : t.Built)
    (hkeys : ∀ key ∈ t.fields.keys, isValidName key = true) : r.Fields t.fields := by
  have hsettled : t.fields.All fun _ f => f.type.Settled := by
    clear hkeys
    induction h with
    | make name kind => exact Keyed.all_empty
    | withDescription h description ih => exact ih
    | withDirective h d ih => exact ih
    | withField h name typeName isList isNonNull ih =>
      exact ih.insert (FieldType.settled_make typeName isList isNonNull)
  exact fun e he => ⟨r.field_of_new e.1 (hkeys e.1 (List.mem_map_of_mem he)), hsettled e he⟩

theorem Fields.placeField {t : TypeDef} {typeName fieldName : String}
    {newName : Option String} {f : Field} {fields : Keyed Field} (h : r.Fields t.fields)
    (hname : r.field fieldName) (hf : f.type.Settled)
    (hplace : t.placeField typeName fieldName newName f = .ok fields) : r.Fields fields := by
  rcases (t.placeField_eq_ok_iff ..).1 hplace with
    ⟨-, rfl⟩ | ⟨new, -, -, hnew, -, rfl⟩
  · exact Keyed.All.insert h ⟨hname, hf⟩
  · exact Keyed.All.replace h ⟨r.field_of_new new hnew, hf⟩

end KeyRule

namespace Graph

variable {r : KeyRule} {g g' : Graph}

namespace Follows

theorem fields (h : g.Follows r) {typeName : String} {t : TypeDef}
    (ht : g.type? typeName = some t) : r.Fields t.fields := (h.get? ht).2

theorem putType (h : g.Follows r) {name : String} {t : TypeDef} (hname : r.type name)
    (ht : r.Fields t.fields) : (g.putType name t).Follows r := h.insert ⟨hname, ht⟩

theorem setFields (h : g.Follows r) (typeName : String) {fields : Keyed Field}
    (hfields : r.Fields fields) : (g.setFields typeName fields).Follows r :=
  h.modify fun _ ht => ⟨ht.1, hfields⟩

theorem withUpdatedType (h : g.Follows r) (typeName : String) (u : TypeUpdates) :
    (g.withUpdatedType typeName u).Follows r := h.modify fun _ ht => ht

theorem withoutType (h : g.Follows r) (name : String) : (g.withoutType name).Follows r :=
  (h.mapValues fun _ _ ht => ⟨ht.1, Keyed.All.filterValues ht.2 _⟩).erase name

theorem renamed (h : g.Follows r) (hkeys : g.types.All fun key t => key = t.name)
    (old : String) {new : String} (hnew : r.type new) : (g.renamed old new).Follows r := by
  refine Keyed.all_ofList fun e he => ?_
  obtain ⟨⟨key, t⟩, ha, rfl⟩ := List.mem_map.1 he
  have hkey : key = t.name := hkeys _ ha
  have ht := h _ ha
  refine ⟨?_, KeyRule.Fields.renameReferences ?_ old new⟩
  · -- The new name has been checked; every other key is the name that was a key before.
    by_cases hold : key = old
    · simpa [renamedEntry, hold] using hnew
    · simpa [renamedEntry, hold, ← hkey] using ht.1
  · split <;> exact ht.2

theorem renameType (h : g.Follows r) (hkeys : g.types.All fun key t => key = t.name)
    {old new : String} (hrun : g.renameType old new = .ok g') : g'.Follows r := by
  obtain ⟨-, ⟨-, rfl⟩ | ⟨-, hname, -, rfl⟩⟩ := renameType_eq_ok_iff.1 hrun
  · exact h
  · obtain ⟨hvalid, hfree, -⟩ := (checkNewTypeName_eq_ok_iff ..).1 hname
    exact h.renamed hkeys old (r.type_of_new new ⟨hvalid, hfree⟩)

theorem updateType (h : g.Follows r) (hkeys : g.types.All fun key t => key = t.name)
    {typeName : String} {u : TypeUpdates} (hrun : g.updateType typeName u = .ok g') :
    g'.Follows r := by
  obtain ⟨-, ⟨-, -, rfl⟩ | ⟨new, -, -, hrename⟩⟩ := updateType_eq_ok_iff.1 hrun
  · exact h.withUpdatedType typeName u
  · exact (h.withUpdatedType typeName u).renameType (hkeys.modify fun _ ht => ht) hrename

theorem setType (h : g.Follows r) {name : String} {t : TypeDef} (ht : t.Built)
    (hrun : g.setType name t = .ok g') : g'.Follows r := by
  obtain ⟨hname, hfields, -, rfl⟩ := setType_eq_ok_iff.1 hrun
  refine h.putType ?_ (KeyRule.fields_of_built ht hfields)
  -- The name is checked only when it is new; a type in place has a key that meets the rule.
  cases hhas : g.hasType name with
  | true =>
    obtain ⟨old, hold⟩ := (type?_isSome_iff g name).2 hhas
    exact (h.get? hold).1
  | false =>
    obtain ⟨hvalid, hfree, -⟩ := (checkNewTypeName_eq_ok_iff ..).1 (hname hhas)
    exact r.type_of_new name ⟨hvalid, hfree⟩

theorem updateField (h : g.Follows r) {typeName fieldName : String} {u : FieldUpdates}
    (hrun : g.updateField typeName fieldName u = .ok g') : g'.Follows r := by
  obtain ⟨t, f, fields, ht, hf, -, hplace, -, rfl⟩ := updateField_eq_ok_iff.1 hrun
  have hfields := h.fields ht
  obtain ⟨hkey, hsettled⟩ := hfields.get? hf
  exact h.setFields typeName (hfields.placeField hkey (hsettled.updated u) hplace)

theorem addField (h : g.Follows r) {typeName fieldName : String} {p : FieldProps}
    (hrun : g.addField typeName fieldName p = .ok g') : g'.Follows r := by
  obtain ⟨t, ht, ⟨-, hupdate⟩ | ⟨-, hvalid, -, -, rfl⟩⟩ := addField_eq_ok_iff.1 hrun
  -- A field that is there already is updated, and its name is not checked again.
  · exact h.updateField hupdate
  · refine h.setFields typeName (Keyed.All.insert (h.fields ht) ⟨r.field_of_new _ hvalid, ?_⟩)
    exact FieldType.settled_make p.typeName p.isList p.isNonNull

theorem apply (h : g.Follows r) (hkeys : g.types.All fun key t => key = t.name) {e : Edit}
    (he : e.Built) (hrun : g.apply e = .ok g') : g'.Follows r := by
  cases e with
  | addType name kind directive =>
    obtain ⟨hname, rfl⟩ := addType_eq_ok_iff.1 hrun
    obtain ⟨hvalid, hfree, -⟩ := (checkNewTypeName_eq_ok_iff ..).1 hname
    exact h.putType (r.type_of_new name ⟨hvalid, hfree⟩) Keyed.all_empty
  | renameType old new => exact h.renameType hkeys hrun
  | removeType name =>
    obtain ⟨-, -, rfl⟩ := removeType_eq_ok_iff.1 hrun
    exact h.withoutType name
  | updateType typeName updates => exact h.updateType hkeys hrun
  | setType name definition => exact h.setType he hrun
  | addField typeName fieldName props => exact h.addField hrun
  | updateField typeName fieldName updates => exact h.updateField hrun
  | removeField typeName fieldName =>
    obtain ⟨t, ht, -, -, rfl⟩ := removeField_eq_ok_iff.1 hrun
    exact h.setFields typeName (Keyed.All.erase (h.fields ht) fieldName)

end Follows

theorem follows_applyAll (hrules : g.violations = []) (h : g.Follows r) {es : List Edit}
    (hes : ∀ e ∈ es, e.Built) (hrun : g.applyAll es = .ok g') :
    g'.violations = [] ∧ g'.Follows r := by
  induction es generalizing g with
  | nil =>
    cases hrun
    exact ⟨hrules, h⟩
  | cons e es ih =>
    rw [Graph.applyAll] at hrun
    cases hstep : g.apply e with
    | error err =>
      rw [hstep] at hrun
      cases hrun
    | ok g₁ =>
      rw [hstep] at hrun
      exact ih (rules_apply hrules hstep)
        (h.apply (type_keys_of_rules hrules) (hes e List.mem_cons_self) hstep)
        (fun a ha => hes a (List.mem_cons_of_mem _ ha)) hrun

end Graph

end SchemaGraph
