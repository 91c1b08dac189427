import SchemaGraph.Proofs.Graph.Renaming

/-! Taking a type away, together with the fields that lead to it. The types and the fields that are
left are found by one filter each, so that of two types either can go first. -/

namespace SchemaGraph

theorem TypeDef.dropReferences_comm (t : TypeDef) (a b : String) :
    (t.dropReferences a).dropReferences b = (t.dropReferences b).dropReferences a := by
  have hfields : ((t.dropReferences a).dropReferences b).fields =
      ((t.dropReferences b).dropReferences a).fields := by
    apply Keyed.ext
    show (t.fields.entries.filter _).filter _ = (t.fields.entries.filter _).filter _
    rw [List.filter_filter, List.filter_filter]
    exact List.filter_congr fun e _ => Bool.and_comm _ _
  exact congrArg (fun fields => { t with fields := fields }) hfields

namespace Graph

variable {g : Graph}

theorem entries_withoutType (g : Graph) (name : String) : (g.withoutType name).types.entries =
    (g.types.entries.filter fun e => e.1 ≠ name).map fun e =>
      (e.1, e.2.dropReferences name) :=
  List.filter_map

theorem withoutType_comm (g : Graph) (a b : String) :
    (g.withoutType a).withoutType b = (g.withoutType b).withoutType a := by
  have hentries : ∀ c d : String, ((g.withoutType c).withoutType d).types.entries =
      (g.types.entries.filter fun e => e.1 ≠ d && e.1 ≠ c).map fun e =>
        (e.1, (e.2.dropReferences c).dropReferences d) := by
    intro c d
    rw [entries_withoutType, entries_withoutType, List.filter_map, List.map_map,
      List.filter_filter]
    rfl
  have htypes : ((g.withoutType a).withoutType b).types =
      ((g.withoutType b).withoutType a).types := by
    apply Keyed.ext
    rw [hentries, hentries]
    simp only [Bool.and_comm, TypeDef.dropReferences_comm _ a b]
  exact congrArg Graph.mk htypes

theorem hasType_withoutType {a b : String} (hne : b ≠ a) (h : g.hasType b = true) :
    (g.withoutType a).hasType b = true := by
  obtain ⟨t, ht⟩ := (type?_isSome_iff g b).2 h
  refine (type?_isSome_iff ..).1 ⟨t.dropReferences a, ?_⟩
  rw [type?_withoutType, if_neg hne, ht]
  rfl

theorem removeType_eq_ok (hrules : g.violations = []) {name : String}
    (h : g.hasType name = true) : g.removeType name = .ok (g.withoutType name) := by
  rw [removeType_eq h]
  exact (validated_eq_ok_iff ..).2 ⟨rules_withoutType hrules name, rfl⟩

structure LeftWithout (g g' : Graph) (name : String) : Prop where
  types : g'.typeNames = g.typeNames.filter fun key => key ≠ name
  fields : ∀ key t, key ≠ name → g.type? key = some t → ∃ fields,
    g'.type? key = some { t with fields } ∧
      fields.entries = t.fields.entries.filter fun e => e.2.type.name ≠ name
  rules : g'.violations = []

theorem leftWithout_withoutType (hrules : g.violations = []) (name : String) :
    g.LeftWithout (g.withoutType name) name where
  types := by
    show ((g.types.mapValues _).erase name).keys = _
    rw [Keyed.keys_erase, Keyed.keys_mapValues]
    rfl
  fields key t hne ht := by
    refine ⟨(t.dropReferences name).fields, ?_, rfl⟩
    rw [type?_withoutType, if_neg hne, ht]
    rfl
  rules := rules_withoutType hrules name

/-- Exactly the types of the graph can be taken away, and two of them in either order. -/
structure RemovesExactly (g : Graph) : Prop where
  removes_iff : ∀ name, (∃ g', g.removeType name = .ok g') ↔ g.hasType name = true
  leaves : ∀ name g', g.removeType name = .ok g' → g.LeftWithout g' name
  commutes : ∀ a b, a ≠ b → g.hasType a = true → g.hasType b = true → ∃ g₁ g₂ g',
    g.removeType a = .ok g₁ ∧ g.removeType b = .ok g₂ ∧
      g₁.removeType b = .ok g' ∧ g₂.removeType a = .ok g'

theorem removesExactly (hrules : g.violations = []) : g.RemovesExactly where
  removes_iff name := by
    constructor
    · rintro ⟨g', h⟩
      exact (removeType_eq_ok_iff.1 h).1
    · intro h
      exact ⟨_, removeType_eq_ok hrules h⟩
  leaves name g' h := by
    obtain ⟨-, -, rfl⟩ := removeType_eq_ok_iff.1 h
    exact leftWithout_withoutType hrules name
  commutes a b hne ha hb := by
    refine ⟨g.withoutType a, g.withoutType b, (g.withoutType a).withoutType b,
      removeType_eq_ok hrules ha, removeType_eq_ok hrules hb, ?_, ?_⟩
    · exact removeType_eq_ok (rules_withoutType hrules a) (hasType_withoutType hne.symm hb)
    · rw [withoutType_comm]
      exact removeType_eq_ok (rules_withoutType hrules b) (hasType_withoutType hne ha)

/-- The two types refer to each other, and one of them to itself. -/
theorem removesExactly_of_threads :
    let post := ((TypeDef.make "Post" .object).withField
      (.make "related" (.make "Post" true false))).withField
        (.make "author" (.make "Person" false true))
    let person := ((TypeDef.make "Person" .object).withField
      (.make "posts" (.make "Post" true false))).withField
        (.make "name" (.make "String" false true))
    let g : Graph := ⟨Keyed.ofList [("Post", post), ("Person", person)]⟩
    g.violations = [] ∧ g.RemovesExactly ∧ ∃ g', g.removeType "Post" = .ok g' ∧
      g'.typeNames = ["Person"] ∧ g'.violations = [] := by
  intro post person g
  have hrules : g.violations = [] := by decide +kernel
  have hexact := removesExactly hrules
  obtain ⟨g', h⟩ := (hexact.removes_iff "Post").2 (by decide +kernel)
  have hleft := hexact.leaves "Post" g' h
  exact ⟨hrules, hexact, g', h, hleft.types, hleft.rules⟩

end Graph

end SchemaGraph
