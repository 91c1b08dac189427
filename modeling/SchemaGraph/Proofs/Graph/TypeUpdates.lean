import SchemaGraph.Proofs.Graph.Merging
import SchemaGraph.Proofs.Graph.Renaming

/-! Updates of a type. One that gives a new name as well is the same as two in a row: what is wrong
with a type under its old name is wrong under the new one, so that nothing gets past the rules on
the way. The directives that are given are merged with those of the type. -/

namespace SchemaGraph

/-- A relation stays one, and a reference to a resource may become one, when the type it leads to
gets a name of its own. -/
theorem Field.isRelation_renamed_of_isRelation {f : Field} {new : String}
    (hnew : Builtin.isFieldType new = false) (h : f.isRelation = true) (old : String) :
    (f.renamed old new).isRelation = true := by
  obtain ⟨hscalar, hresource⟩ := Bool.or_eq_false_iff.1 hnew
  unfold Field.renamed
  split
  · simp [Field.isRelation, FieldType.withName, hscalar, hresource]
  · exact h

theorem TypeDef.updated_eq (t : TypeDef) (u : TypeUpdates) : t.updated u =
    { t with
      description := u.description.or t.description
      directives := (u.directives.map (mergeAnnotations t.directives)).getD t.directives } := by
  unfold TypeDef.updated
  cases u.description <;> cases u.directives <;> rfl

namespace Graph

variable {g g' : Graph} {typeName old new : String} {u : TypeUpdates}

def Connected (g : Graph) : Prop := g.types.All fun key t => key = t.name ∧
  t.fields.All fun fieldKey f => fieldKey = f.name ∧ g.resolves f.type.name = true

theorem connected_of_rules (h : g.violations = []) : g.Connected :=
  ((violations_eq_nil_iff g).1 h).imp fun _ _ ht => ⟨ht.1, ht.2.imp fun _ _ hf => ⟨hf.1, hf.2.1⟩⟩

theorem Connected.rules_of_renamed (h : g.Connected) (hfresh : g.hasType new = false)
    (hnew : Builtin.isFieldType new = false) (hrules : (g.renamed old new).violations = []) :
    g.violations = [] := by
  have hkeys : g.types.All fun key t => key = t.name := h.imp fun _ _ ht => ht.1
  refine (violations_eq_nil_iff g).2 fun e he => ⟨(h e he).1, fun a ha => ?_⟩
  obtain ⟨hkey, hresolves⟩ := (h e he).2 a ha
  refine ⟨hkey, hresolves, ?_⟩
  have hentry : (renamedName old new e.1, e.2.renamed old new) ∈
      (g.renamed old new).types.entries := by
    rw [entries_renamed hkeys hfresh]
    exact List.mem_map.2 ⟨e, he, rfl⟩
  have hfield : (a.1, a.2.renamed old new) ∈ (e.2.renamed old new).fields.entries :=
    List.mem_map.2 ⟨a, ha, rfl⟩
  have hinline : (e.2.isInline && (a.2.renamed old new).isRelation &&
      (a.2.renamed old new).type.isList) = false :=
    (((violations_eq_nil_iff _).1 hrules _ hentry).2 _ hfield).2.2
  rw [Field.isList_renamed] at hinline
  cases hrelation : a.2.isRelation with
  | false => simp
  | true => rwa [Field.isRelation_renamed_of_isRelation hnew hrelation old] at hinline

theorem type?_withUpdatedType (name : String) : (g.withUpdatedType typeName u).type? name =
    if name = typeName then (g.type? name).map fun t => t.updated u else g.type? name :=
  Keyed.get?_modify ..

theorem hasType_withUpdatedType (name : String) :
    (g.withUpdatedType typeName u).hasType name = g.hasType name := by
  show ((g.withUpdatedType typeName u).type? name).isSome = (g.type? name).isSome
  rw [type?_withUpdatedType]
  split
  · exact Option.isSome_map
  · rfl

theorem Connected.withUpdatedType (h : g.Connected) (typeName : String) (u : TypeUpdates) :
    (g.withUpdatedType typeName u).Connected := by
  unfold Connected
  simp only [resolves, hasType_withUpdatedType]
  exact h.modify fun _ ht => ht

theorem rules_of_renameType_withUpdatedType (hrules : g.violations = []) (hne : new ≠ typeName)
    (h : (g.withUpdatedType typeName u).renameType typeName new = .ok g') :
    (g.withUpdatedType typeName u).violations = [] := by
  obtain ⟨-, ⟨hsame, -⟩ | ⟨-, hcheck, hrenamed, -⟩⟩ := renameType_eq_ok_iff.1 h
  · exact absurd hsame.symm hne
  · obtain ⟨-, hreserved, hfresh⟩ := (checkNewTypeName_eq_ok_iff ..).1 hcheck
    have hnew : Builtin.isFieldType new = false := (Bool.or_eq_false_iff.1 hreserved).2
    have hconnected := (connected_of_rules hrules).withUpdatedType typeName u
    exact hconnected.rules_of_renamed hfresh hnew hrenamed

theorem updateType_named_eq_ok_iff (hrules : g.violations = []) (hne : new ≠ typeName) :
    g.updateType typeName { u with name := some new } = .ok g' ↔
      ∃ g₁, g.updateType typeName { u with name := none } = .ok g₁ ∧
        g₁.renameType typeName new = .ok g' := by
  simp only [updateType_eq_ok_iff]
  constructor
  · rintro ⟨hhas, ⟨hstays, -⟩ | ⟨_, ⟨⟩, -, hrename⟩⟩
    · exact absurd (hstays new rfl) hne
    · exact ⟨_, ⟨hhas, .inl ⟨nofun, rules_of_renameType_withUpdatedType hrules hne hrename, rfl⟩⟩,
        hrename⟩
  · rintro ⟨_, ⟨hhas, ⟨-, -, rfl⟩ | ⟨_, ⟨⟩, -⟩⟩, hrename⟩
    exact ⟨hhas, .inr ⟨new, rfl, hne, hrename⟩⟩

/-- How types are updated. A new name can be given with all else or after it. Directives are merged
into those of the type: the last that is given under a name takes the place of the first that was
there, and to merge them again changes nothing. -/
structure UpdatesTypes (g : Graph) : Prop where
  factors : ∀ typeName new (u : TypeUpdates) g', new ≠ typeName →
    (g.updateType typeName { u with name := some new } = .ok g' ↔
      ∃ g₁, g.updateType typeName { u with name := none } = .ok g₁ ∧
        g₁.renameType typeName new = .ok g')
  updated : ∀ typeName (u : TypeUpdates) g', u.name = none → g.updateType typeName u = .ok g' →
    g'.typeNames = g.typeNames ∧ (∀ name, name ≠ typeName → g'.type? name = g.type? name) ∧
      ∃ t, g.type? typeName = some t ∧ g'.type? typeName = some
        { t with
          description := u.description.or t.description
          directives := (u.directives.map (mergeAnnotations t.directives)).getD t.directives }
  merges : ∀ existing updates, updates ≠ [] →
    Annotation.Merges existing updates (mergeAnnotations existing updates)
  again : ∀ existing updates, updates ≠ [] →
    mergeAnnotations (mergeAnnotations existing updates) updates =
      mergeAnnotations existing updates
  clears : ∀ existing, mergeAnnotations existing [] = []

theorem updatesTypes (hrules : g.violations = []) : g.UpdatesTypes where
  factors _ _ _ _ hne := updateType_named_eq_ok_iff hrules hne
  updated typeName u g' hname h := by
    obtain ⟨hhas, ⟨-, -, rfl⟩ | ⟨new, hnew, -⟩⟩ := updateType_eq_ok_iff.1 h
    · obtain ⟨t, ht⟩ := (type?_isSome_iff g typeName).2 hhas
      have hothers : ∀ name, name ≠ typeName →
          (g.withUpdatedType typeName u).type? name = g.type? name := by
        intro name hne
        rw [type?_withUpdatedType, if_neg hne]
      refine ⟨Keyed.keys_modify .., hothers, t, ht, ?_⟩
      rw [type?_withUpdatedType, if_pos rfl, ht, ← t.updated_eq]
      rfl
    · rw [hname] at hnew
      cases hnew
  merges existing updates hne := by
    rw [mergeAnnotations_of_ne_nil hne]
    exact Annotation.merges_mergeEach existing updates
  again existing updates hne := by
    rw [mergeAnnotations_of_ne_nil hne, mergeAnnotations_of_ne_nil hne,
      Annotation.mergeEach_mergeEach]
  clears _ := rfl

/-- Two directives of one name in a type, and two of that name for it. The type gets another name
with them, but not together with a mark that it cannot have. -/
theorem updatesTypes_of_retagged_post :
    let tag : String → Annotation := fun s => .named "@tag" (Keyed.ofList [("name", s)])
    let post := ((((TypeDef.make "Post" .object).withDirective (tag "1")).withDirective
      (.named "@view" ∅)).withDirective (tag "2")).withField
        (.make "related" (.make "Post" true false))
    let g : Graph := ⟨Keyed.ofList [("Post", post)]⟩
    let retag : TypeUpdates := ⟨none, some [.named "@owner" ∅, tag "3", tag "4"], some "Article"⟩
    let embed : TypeUpdates := ⟨none, some [.named "@inline" ∅], some "Article"⟩
    g.violations = [] ∧ g.UpdatesTypes ∧
      (∃ g', g.updateType "Post" retag = .ok g' ∧ (g'.type? "Article").map TypeDef.directives =
        some [tag "4", .named "@view" ∅, tag "2", .named "@owner" ∅]) ∧
      ¬∃ g', g.updateType "Post" embed = .ok g' := by
  intro tag post g retag embed
  have hrules : g.violations = [] := by decide +kernel
  have hupdates := updatesTypes hrules
  have hretag : (g.updateType "Post" retag).toOption.map
      (fun g' => (g'.type? "Article").map TypeDef.directives) =
        some (some [tag "4", .named "@view" ∅, tag "2", .named "@owner" ∅]) := by
    decide +kernel
  refine ⟨hrules, hupdates, exists_eq_ok_of_map hretag, ?_⟩
  rintro ⟨g', h⟩
  obtain ⟨g₁, halone, -⟩ := (hupdates.factors "Post" "Article" embed g' (by decide)).1 h
  have hfails : (g.updateType "Post" { embed with name := none }).toOption = none := by
    decide +kernel
  rw [halone] at hfails
  cases hfails

end Graph

end SchemaGraph
