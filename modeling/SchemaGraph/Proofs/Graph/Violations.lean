import SchemaGraph.Proofs.Graph.Edits
import SchemaGraph.Proofs.Keyed

/-! Which violations a successful edit leaves. Edits check the rules on the graph they lead to, all
but two: a type is added to whatever graph there is, and a type that gets the name it has stays
where it is. -/

namespace SchemaGraph

def SchemaError.misses (name : String) : SchemaError → Bool
  | .danglingTypeReference _ referencedType _ => referencedType = name
  | _ => false

namespace Edit

def checksRules : Edit → Bool
  | .addType .. => false
  | .renameType old new => old ≠ new
  | _ => true

def supplies : Edit → SchemaError → Bool
  | .addType name _ _, v => v.misses name
  | _, _ => false

end Edit

namespace Graph

variable {g g' : Graph}

theorem violations_eq_nil_iff (g : Graph) :
    g.violations = [] ↔ g.types.All fun key t => key = t.name ∧
      t.fields.All fun fieldKey f => fieldKey = f.name ∧ g.resolves f.type.name = true ∧
        (t.isInline && f.isRelation && f.type.isList) = false := by
  simp only [violations, typeViolations, fieldViolations, List.flatMap_eq_nil_iff,
    List.append_eq_nil_iff, ite_eq_right_iff, Keyed.All]
  refine forall₂_congr fun e _ => ?_
  grind

theorem type_keys_of_rules (h : g.violations = []) : g.types.All fun key t => key = t.name :=
  ((violations_eq_nil_iff g).1 h).imp fun _ _ ht => ht.1

theorem resolves_putType (g : Graph) (name : String) (t : TypeDef) (referencedType : String) :
    (g.putType name t).resolves referencedType =
      (g.resolves referencedType || decide (referencedType = name)) := by
  rw [resolves, resolves, hasType, hasType, putType, Keyed.contains, Keyed.get?_insert]
  by_cases h : referencedType = name
  · simp [h]
  · simp [h, Keyed.contains]

section NewType

variable {name : String} (hnew : g.resolves name = false)
include hnew

theorem fieldViolations_putType (u t : TypeDef) (key : String) (f : Field) :
    fieldViolations (g.putType name u) t key f =
      (fieldViolations g t key f).filter fun v => !v.misses name := by
  have hreference : (if (g.putType name u).resolves f.type.name then []
        else [SchemaError.danglingTypeReference f.name f.type.name t.name]) =
      (if g.resolves f.type.name then []
        else [SchemaError.danglingTypeReference f.name f.type.name t.name]).filter
          fun v => !v.misses name := by
    rw [resolves_putType]
    by_cases href : f.type.name = name
    · simp [href, hnew, SchemaError.misses]
    · cases g.resolves f.type.name <;> simp [href, SchemaError.misses]
  rw [fieldViolations, fieldViolations, List.filter_append, List.filter_append, hreference]
  congr 1
  · congr 1
    split <;> rfl
  · split <;> rfl

theorem typeViolations_putType (u : TypeDef) (key : String) (t : TypeDef) :
    typeViolations (g.putType name u) key t =
      (typeViolations g key t).filter fun v => !v.misses name := by
  rw [typeViolations, typeViolations, List.filter_append, List.filter_flatMap]
  congr 1
  · split <;> rfl
  · simp only [fieldViolations_putType hnew]

theorem violations_putType_bare (kind : TypeKind) (directive : Option String) :
    (g.putType name (.bare name kind directive)).violations =
      g.violations.filter fun v => !v.misses name := by
  have hkey : name ∉ g.types.keys := by
    rw [resolves, Bool.or_eq_false_iff] at hnew
    exact Keyed.contains_eq_false_iff.1 hnew.2
  have hentries : (g.putType name (.bare name kind directive)).types.entries =
      g.types.entries ++ [(name, .bare name kind directive)] :=
    Keyed.entries_insert_of_not_mem _ _ _ hkey
  -- The type itself comes without fields, so nothing is wrong with it.
  have hbare : ∀ h : Graph, typeViolations h name (.bare name kind directive) = [] := by
    intro h
    simp [typeViolations, TypeDef.bare, TypeDef.make]
  rw [violations, violations, hentries, List.flatMap_append, List.filter_flatMap]
  simp only [typeViolations_putType hnew, List.flatMap_singleton, hbare, List.filter_nil,
    List.append_nil]

end NewType

theorem rules_of_checksRules {e : Edit} (he : e.checksRules = true) (h : g.apply e = .ok g') :
    g'.violations = [] := by
  cases e with
  | addType name kind directive => cases he
  | renameType old new =>
    have hne : old ≠ new := of_decide_eq_true he
    obtain ⟨-, ⟨hsame, -⟩ | ⟨-, -, hrules, rfl⟩⟩ := renameType_eq_ok_iff.1 h
    · exact absurd hsame hne
    · exact hrules
  | removeType name =>
    obtain ⟨-, hrules, rfl⟩ := removeType_eq_ok_iff.1 h
    exact hrules
  | updateType typeName updates =>
    obtain ⟨-, ⟨-, hrules, rfl⟩ | ⟨new, -, hne, hrename⟩⟩ := updateType_eq_ok_iff.1 h
    · exact hrules
    · obtain ⟨-, ⟨hsame, -⟩ | ⟨-, -, hrules, rfl⟩⟩ := renameType_eq_ok_iff.1 hrename
      · exact absurd hsame.symm hne
      · exact hrules
  | setType name definition =>
    obtain ⟨-, -, hrules, rfl⟩ := setType_eq_ok_iff.1 h
    exact hrules
  | addField typeName fieldName props =>
    obtain ⟨_, -, ⟨-, hupdate⟩ | ⟨-, -, -, hrules, rfl⟩⟩ := addField_eq_ok_iff.1 h
    · obtain ⟨_, _, _, -, -, -, -, hrules, rfl⟩ := updateField_eq_ok_iff.1 hupdate
      exact hrules
    · exact hrules
  | updateField typeName fieldName updates =>
    obtain ⟨_, _, _, -, -, -, -, hrules, rfl⟩ := updateField_eq_ok_iff.1 h
    exact hrules
  | removeField typeName fieldName =>
    obtain ⟨_, -, -, hrules, rfl⟩ := removeField_eq_ok_iff.1 h
    exact hrules

theorem violations_of_not_checksRules {e : Edit} (he : e.checksRules = false)
    (h : g.apply e = .ok g') : g'.violations = g.violations.filter fun v => !e.supplies v := by
  cases e with
  | addType name kind directive =>
    obtain ⟨hname, rfl⟩ := addType_eq_ok_iff.1 h
    obtain ⟨-, hreserved, hfree⟩ := (checkNewTypeName_eq_ok_iff ..).1 hname
    rw [isReservedName, Bool.or_eq_false_iff] at hreserved
    have hnew : g.resolves name = false := by
      rw [resolves, hreserved.2, hfree]
      rfl
    exact violations_putType_bare hnew kind directive
  | renameType old new =>
    have hsame : old = new := by simpa [Edit.checksRules] using he
    obtain ⟨-, ⟨-, rfl⟩ | ⟨hne, -⟩⟩ := renameType_eq_ok_iff.1 h
    · exact (List.filter_eq_self.2 fun _ _ => rfl).symm
    · exact absurd hsame hne
  | _ => cases he

theorem rules_apply (hrules : g.violations = []) {e : Edit} (h : g.apply e = .ok g') :
    g'.violations = [] := by
  cases he : e.checksRules with
  | true => exact rules_of_checksRules he h
  | false => rw [violations_of_not_checksRules he h, hrules, List.filter_nil]

/-- Of edits that succeed, those that check the rules lead to a graph that keeps them, and the
others do so if nothing was wrong before that they put right. -/
theorem rules_after_iff {e : Edit} (h : g.apply e = .ok g') :
    g'.violations = [] ↔ e.checksRules = true ∨ ∀ v ∈ g.violations, e.supplies v = true := by
  cases he : e.checksRules with
  | true => simp [rules_of_checksRules he h]
  | false => simp [violations_of_not_checksRules he h, List.filter_eq_nil_iff]

theorem rules_after_missing_type :
    let comment := (TypeDef.make "Comment" .object).withField (.make "author"
      (.make "Person" false true))
    let post := (TypeDef.make "Post" .object).withField (.make "readers" (.make "Person" true false))
    let g : Graph := ⟨Keyed.ofList [("Comment", comment), ("Post", post)]⟩
    let e : Edit := .addType "Person" .object (some "@inline")
    g.violations ≠ [] ∧ ∃ g', g.apply e = .ok g' ∧ g'.violations = [] := by
  intro comment post g e
  have hmissing : g.violations = [.danglingTypeReference "author" "Person" "Comment",
      .danglingTypeReference "readers" "Person" "Post"] := by decide +kernel
  obtain ⟨g', h⟩ : ∃ g', g.apply e = .ok g' := ⟨_, rfl⟩
  refine ⟨by rw [hmissing]; exact List.cons_ne_nil _ _, g', h, (rules_after_iff h).2 (.inr ?_)⟩
  rw [hmissing]
  decide

/-- Neither edit has to do with the type that is missing, and neither complains. -/
theorem violations_after_unchecked_edits :
    let post := (TypeDef.make "Post" .object).withField (.make "author" (.make "Person" false true))
    let g : Graph := ⟨Keyed.ofList [("Post", post)]⟩
    let missing : SchemaError := .danglingTypeReference "author" "Person" "Post"
    (∃ g', g.apply (.addType "Tag" .object none) = .ok g' ∧ g'.violations = [missing]) ∧
      ∃ g', g.apply (.renameType "Post" "Post") = .ok g' ∧ g'.violations = [missing] := by
  intro post g missing
  exact ⟨⟨_, rfl, by decide +kernel⟩, ⟨_, rfl, by decide +kernel⟩⟩

end Graph

end SchemaGraph
