import SchemaGraph.Graph.Edit

/-! When an edit succeeds, and which graph it then leads to: one statement for each edit, from
which all that is said about edits follows without opening them again. -/

namespace SchemaGraph

theorem bind_eq_ok_iff {ε α β : Type} {x : Except ε α} {f : α → Except ε β} {b : β} :
    (x >>= f) = .ok b ↔ ∃ a, x = .ok a ∧ f a = .ok b := by
  cases x with
  | error e =>
    constructor
    · intro h
      cases h
    · rintro ⟨_, h, -⟩
      cases h
  | ok a =>
    constructor
    · intro h
      exact ⟨a, rfl, h⟩
    · rintro ⟨_, h, hf⟩
      cases h
      exact hf

/-- A run on a fixed input can be evaluated without its result being written down. -/
theorem exists_eq_ok_of_map {ε α β : Type} {x : Except ε α} {f : α → β} {b : β}
    (h : x.toOption.map f = some b) : ∃ a, x = .ok a ∧ f a = b := by
  cases x with
  | error e => cases h
  | ok a => exact ⟨a, rfl, Option.some.inj h⟩

theorem exists_unit_iff {P : Unit → Prop} : (∃ u, P u) ↔ P () :=
  ⟨fun ⟨_, h⟩ => h, fun h => ⟨(), h⟩⟩

theorem check_bind_eq_ok_iff {ε β : Type} {x : Except ε Unit} {f : Unit → Except ε β} {b : β} :
    (x >>= f) = .ok b ↔ x = .ok () ∧ f () = .ok b := by
  rw [bind_eq_ok_iff, exists_unit_iff]

theorem forM_eq_ok_iff {ε α : Type} {f : α → Except ε Unit} {xs : List α} :
    forM xs f = .ok () ↔ ∀ x ∈ xs, f x = .ok () := by
  induction xs with
  | nil => simp [pure, Except.pure]
  | cons x xs ih =>
    rw [List.forM_cons, check_bind_eq_ok_iff, ih]
    simp only [List.mem_cons, forall_eq_or_imp]

theorem TypeDef.requireField_eq_ok_iff (t : TypeDef) (typeName fieldName : String) (f : Field) :
    t.requireField typeName fieldName = .ok f ↔ t.field? fieldName = some f := by
  unfold TypeDef.requireField
  split <;> simp_all

theorem TypeDef.placeField_eq_ok_iff (t : TypeDef) (typeName fieldName : String)
    (newName : Option String) (f : Field) (fields : Keyed Field) :
    t.placeField typeName fieldName newName f = .ok fields ↔
      (∀ new, newName = some new → new = fieldName) ∧ t.fields.insert fieldName f = fields ∨
        ∃ new, newName = some new ∧ new ≠ fieldName ∧ isValidName new = true ∧
          t.fields.contains new = false ∧
            t.fields.replace fieldName new { f with name := new } = fields := by
  cases newName with
  | none => simp [placeField]
  | some new =>
    by_cases hsame : new = fieldName
    · simp [placeField, hsame]
    · simp only [placeField, hsame, if_false, check_bind_eq_ok_iff,
        Graph.checkFieldName_eq_ok_iff]
      cases hc : t.fields.contains new <;> simp [hsame, hc]

namespace Graph

variable {g g' : Graph}

theorem type?_isSome_iff (g : Graph) (name : String) :
    (∃ t, g.type? name = some t) ↔ g.hasType name = true := by
  rw [hasType, Keyed.contains, Option.isSome_iff_exists]
  rfl

theorem addType_eq_ok_iff {name : String} {kind : TypeKind} {directive : Option String} :
    g.addType name kind directive = .ok g' ↔
      g.checkNewTypeName name = .ok () ∧ g.putType name (.bare name kind directive) = g' := by
  rw [addType, check_bind_eq_ok_iff]
  simp [pure, Except.pure]

theorem renameType_eq_ok_iff {old new : String} :
    g.renameType old new = .ok g' ↔
      g.hasType old = true ∧ (old = new ∧ g = g' ∨
        old ≠ new ∧ g.checkNewTypeName new = .ok () ∧
          (g.renamed old new).violations = [] ∧ g.renamed old new = g') := by
  rw [renameType, bind_eq_ok_iff, ← type?_isSome_iff]
  simp only [require_eq_ok_iff, exists_and_right]
  by_cases hsame : old = new
  · simp [hsame, pure, Except.pure]
  · simp [hsame, check_bind_eq_ok_iff, validated_eq_ok_iff]

theorem removeType_eq_ok_iff {name : String} :
    g.removeType name = .ok g' ↔
      g.hasType name = true ∧ (g.withoutType name).violations = [] ∧
        g.withoutType name = g' := by
  rw [removeType, bind_eq_ok_iff, ← type?_isSome_iff]
  simp only [require_eq_ok_iff, exists_and_right, validated_eq_ok_iff]

theorem updateType_eq_ok_iff {typeName : String} {u : TypeUpdates} :
    g.updateType typeName u = .ok g' ↔
      g.hasType typeName = true ∧
        ((∀ new, u.name = some new → new = typeName) ∧
            (g.withUpdatedType typeName u).violations = [] ∧
              g.withUpdatedType typeName u = g' ∨
          ∃ new, u.name = some new ∧ new ≠ typeName ∧
            (g.withUpdatedType typeName u).renameType typeName new = .ok g') := by
  rw [updateType, bind_eq_ok_iff, ← type?_isSome_iff]
  simp only [require_eq_ok_iff, exists_and_right]
  cases hname : u.name with
  | none => simp [validated_eq_ok_iff]
  | some new => by_cases hsame : new = typeName <;> simp [hsame, validated_eq_ok_iff]

theorem setType_eq_ok_iff {name : String} {t : TypeDef} :
    g.setType name t = .ok g' ↔
      (g.hasType name = false → g.checkNewTypeName name = .ok ()) ∧
        (∀ key ∈ t.fields.keys, isValidName key = true) ∧
          (g.putType name t).violations = [] ∧ g.putType name t = g' := by
  have hfields : t.fields.keys.forM (checkFieldName name) = .ok () ↔
      ∀ key ∈ t.fields.keys, isValidName key = true := by
    simp only [List.forM_eq_forM, forM_eq_ok_iff, checkFieldName_eq_ok_iff]
  rw [setType, ← hfields]
  cases h : g.hasType name <;> simp [check_bind_eq_ok_iff, validated_eq_ok_iff]

theorem updateField_eq_ok_iff {typeName fieldName : String} {u : FieldUpdates} :
    g.updateField typeName fieldName u = .ok g' ↔
      ∃ t f fields, g.type? typeName = some t ∧ t.field? fieldName = some f ∧
        (∀ r, u.typeName = some r → g.resolves r = true) ∧
          t.placeField typeName fieldName u.name (f.updated u) = .ok fields ∧
            (g.setFields typeName fields).violations = [] ∧
              g.setFields typeName fields = g' := by
  rw [updateField]
  cases hname : u.typeName with
  | none => simp [bind_eq_ok_iff, require_eq_ok_iff, TypeDef.requireField_eq_ok_iff,
      validated_eq_ok_iff]
  | some r => simp [bind_eq_ok_iff, exists_unit_iff, require_eq_ok_iff,
      TypeDef.requireField_eq_ok_iff, checkFieldType_eq_ok_iff, validated_eq_ok_iff]

theorem addField_eq_ok_iff {typeName fieldName : String} {p : FieldProps} :
    g.addField typeName fieldName p = .ok g' ↔
      ∃ t, g.type? typeName = some t ∧
        (t.fields.contains fieldName = true ∧
            g.updateField typeName fieldName p.toUpdates = .ok g' ∨
          t.fields.contains fieldName = false ∧ isValidName fieldName = true ∧
            g.resolves p.typeName = true ∧
              (g.setFields typeName
                (t.fields.insert fieldName (p.toField fieldName))).violations = [] ∧
                g.setFields typeName (t.fields.insert fieldName (p.toField fieldName)) = g') := by
  simp only [addField, bind_eq_ok_iff, require_eq_ok_iff]
  refine exists_congr fun t => and_congr_right fun _ => ?_
  cases h : t.fields.contains fieldName <;>
    simp [check_bind_eq_ok_iff, checkFieldName_eq_ok_iff, checkFieldType_eq_ok_iff,
      validated_eq_ok_iff]

theorem removeField_eq_ok_iff {typeName fieldName : String} :
    g.removeField typeName fieldName = .ok g' ↔
      ∃ t, g.type? typeName = some t ∧ t.fields.contains fieldName = true ∧
        (g.setFields typeName (t.fields.erase fieldName)).violations = [] ∧
          g.setFields typeName (t.fields.erase fieldName) = g' := by
  simp only [removeField, bind_eq_ok_iff, require_eq_ok_iff, TypeDef.requireField_eq_ok_iff,
    validated_eq_ok_iff, exists_and_right]
  refine exists_congr fun t => and_congr_right fun _ => ?_
  rw [Keyed.contains, Option.isSome_iff_exists]
  rfl

end Graph

end SchemaGraph
