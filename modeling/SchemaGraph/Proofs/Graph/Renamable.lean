import SchemaGraph.Proofs.Graph.Renaming

/-! What it is to give a type another name in a graph that edits have made: when it can be done, and
all that it changes. Of the rules only the name itself is in the way, since a type that is renamed
brings along whatever leads to it. -/

namespace SchemaGraph

def Field.redirected (old new : String) (f : Field) : Field :=
  if f.type.name = old then { f with type := { f.type with isCustom := true, name := new } } else f

def TypeDef.redirected (old new : String) (t : TypeDef) : TypeDef :=
  { t with
    fields := t.fields.mapValues (Field.redirected old new)
    name := renamedName old new t.name }

theorem Field.typeName_redirected (old new : String) (f : Field) :
    (f.redirected old new).type.name = renamedName old new f.type.name := by
  unfold Field.redirected renamedName
  split <;> rfl

theorem TypeDef.redirected_eq {new : String} (hnew : Builtin.isScalar new = false) (old : String)
    (t : TypeDef) : t.redirected old new = t.renamed old new := by
  have hfield : Field.redirected old new = Field.renamed old new := by
    funext f
    unfold Field.redirected Field.renamed FieldType.withName
    rw [hnew]
    rfl
  rw [TypeDef.redirected, TypeDef.renamed_eq, hfield]

namespace Graph

variable {g g' : Graph} {old new : String}

theorem Renames.resolves_renamed (h : g.Renames old new) {name : String}
    (hname : g.resolves name = true) :
    (g.renamed old new).resolves (renamedName old new name) = true := by
  rw [resolves, Bool.or_eq_true] at hname ⊢
  rcases hname with hknown | hhas
  · -- A name that means something by itself is not the one that is given up.
    have hne : name ≠ old := by
      rintro rfl
      exact Bool.false_ne_true (h.old_unknown.symm.trans hknown)
    rw [renamedName_of_ne hne]
    exact .inl hknown
  · exact .inr ((hasType_renamed_iff h.keys h.fresh).2 ⟨name, hhas, rfl⟩)

theorem Renames.rules_renamed (h : g.Renames old new) : (g.renamed old new).violations = [] := by
  refine (violations_eq_nil_iff _).2 fun e he => ?_
  rw [entries_renamed h.keys h.fresh] at he
  obtain ⟨⟨key, t⟩, ht, rfl⟩ := List.mem_map.1 he
  obtain ⟨hkey, hfields⟩ := (violations_eq_nil_iff g).1 h.rules _ ht
  refine ⟨congrArg (renamedName old new) hkey, fun a ha => ?_⟩
  obtain ⟨⟨fieldKey, f⟩, hf, rfl⟩ := List.mem_map.1 ha
  obtain ⟨hfieldKey, hresolves, hinline⟩ := hfields _ hf
  have hunderstood : g.Understands f := ⟨h.settled _ ht _ hf, hresolves⟩
  refine ⟨hfieldKey.trans (Field.name_renamed f).symm, ?_, ?_⟩
  · exact (Field.typeName_renamed f).symm ▸ h.resolves_renamed hresolves
  · show (t.isInline && (f.renamed old new).isRelation && (f.renamed old new).type.isList) = false
    rw [h.isRelation_renamed hunderstood, Field.isList_renamed]
    exact hinline

structure Unused (g : Graph) (name : String) : Prop where
  valid : ValidName name
  unreserved : (∀ b ∈ Builtin.all, b.name ≠ name) ∧ name ∉ Builtin.resourceReferences
  fresh : g.hasType name = false

/-- Which types can get which names, and what becomes of the graph. Types, fields and all that
belongs to them stay in their places. -/
structure RenamesExactly (g : Graph) : Prop where
  renames_iff : ∀ old new, (∃ g', g.renameType old new = .ok g') ↔
    g.hasType old = true ∧ (new = old ∨ g.Unused new)
  entries : ∀ old new g', g.renameType old new = .ok g' → g'.types.entries =
    g.types.entries.map fun e => (renamedName old new e.1, e.2.redirected old new)
  given_up : ∀ old new g', g.renameType old new = .ok g' → g'.types.All fun _ t =>
    t.fields.All fun _ f => f.type.name = old → new = old

theorem RenamesExactly.typeNames (h : g.RenamesExactly) (hrename : g.renameType old new = .ok g') :
    g'.typeNames = g.typeNames.map (renamedName old new) := by
  rw [Graph.typeNames, Keyed.keys, h.entries old new g' hrename, List.map_map, Graph.typeNames,
    Keyed.keys, List.map_map]
  rfl

theorem checkNewTypeName_eq_ok_iff_unused (g : Graph) (name : String) :
    g.checkNewTypeName name = .ok () ↔ g.Unused name := by
  rw [checkNewTypeName_eq_ok_iff, isValidName_iff, isReservedName_eq_false_iff]
  exact ⟨fun ⟨hv, hu, hf⟩ => ⟨hv, hu, hf⟩, fun ⟨hv, hu, hf⟩ => ⟨hv, hu, hf⟩⟩

section Kept

variable (h : g.Kept)
include h

theorem Kept.isScalar_eq_false (hold : g.hasType old = true) : Builtin.isScalar old = false := by
  obtain ⟨t, ht⟩ := (type?_isSome_iff g old).2 hold
  exact (Bool.or_eq_false_iff.1 (Bool.or_eq_false_iff.1 (h.made.get? ht).1.2).2).1

theorem Kept.renames_iff (old new : String) : (∃ g', g.renameType old new = .ok g') ↔
    g.hasType old = true ∧ (new = old ∨ g.Unused new) := by
  rw [← checkNewTypeName_eq_ok_iff_unused]
  constructor
  · rintro ⟨g', hrename⟩
    obtain ⟨hold, ⟨hsame, -⟩ | ⟨-, hcheck, -⟩⟩ := renameType_eq_ok_iff.1 hrename
    · exact ⟨hold, .inl hsame.symm⟩
    · exact ⟨hold, .inr hcheck⟩
  · rintro ⟨hold, rfl | hcheck⟩
    · exact ⟨g, renameType_eq_ok_iff.2 ⟨hold, .inl ⟨rfl, rfl⟩⟩⟩
    · have hrenames := (h.renames hold hcheck).1
      have hne : old ≠ new := by
        rintro rfl
        exact Bool.false_ne_true (hrenames.fresh.symm.trans hold)
      exact ⟨_, renameType_eq_ok_iff.2
        ⟨hold, .inr ⟨hne, hcheck, hrenames.rules_renamed, rfl⟩⟩⟩

theorem Kept.entries_of_renameType (hrename : g.renameType old new = .ok g') :
    g'.types.entries =
      g.types.entries.map fun e => (renamedName old new e.1, e.2.redirected old new) := by
  obtain ⟨hold, ⟨rfl, rfl⟩ | ⟨-, hcheck, -, rfl⟩⟩ := renameType_eq_ok_iff.1 hrename
  · simp only [TypeDef.redirected_eq (h.isScalar_eq_false hold)]
    refine ((List.map_congr_left fun e he => ?_).trans (List.map_id _)).symm
    have hsettled : e.2.Settled := (h.made e he).2.imp fun _ _ hf => hf.2
    exact Prod.ext (renamedName_same e.1) (TypeDef.renamed_same hsettled)
  · have hrenames := (h.renames hold hcheck).1
    have hnew : Builtin.isScalar new = false := (Bool.or_eq_false_iff.1 hrenames.new_unknown).1
    simp only [TypeDef.redirected_eq hnew]
    exact entries_renamed hrenames.keys hrenames.fresh

theorem Kept.renamesExactly : g.RenamesExactly where
  renames_iff := h.renames_iff
  entries _ _ _ := h.entries_of_renameType
  given_up old new g' hrename := by
    intro e he a ha hname
    rw [h.entries_of_renameType hrename] at he
    obtain ⟨⟨key, t⟩, -, rfl⟩ := List.mem_map.1 he
    obtain ⟨⟨fieldKey, f⟩, -, rfl⟩ := List.mem_map.1 ha
    rw [Field.typeName_redirected] at hname
    by_cases hled : f.type.name = old
    · rwa [hled, renamedName_self] at hname
    · exact absurd (renamedName_of_ne hled ▸ hname) hled

end Kept

theorem renamesExactly_of_applyAll {es : List Edit} (hes : ∀ e ∈ es, e.Built)
    (hrun : (∅ : Graph).applyAll es = .ok g) : g.RenamesExactly :=
  (kept_empty.applyAll hes hrun).renamesExactly

/-- A type that refers to itself gets a new name, but not that of a built-in type or of the
other. -/
theorem renamesExactly_of_post :
    let post := ((TypeDef.make "Post" .object).withField
      (.make "related" (.make "Post" true false))).withField
        (.make "author" (.make "Person" false true))
    let es : List Edit := [.addType "Person" .object (some "@inline"), .setType "Post" post]
    ∃ g : Graph, (∀ e ∈ es, e.Built) ∧ (∅ : Graph).applyAll es = .ok g ∧ g.RenamesExactly ∧
      (∃ g', g.renameType "Post" "Article" = .ok g' ∧ g'.typeNames = ["Person", "Article"] ∧
        g'.types.All fun _ t => t.fields.All fun _ f => f.type.name ≠ "Post") ∧
      (¬∃ g', g.renameType "Post" "Date" = .ok g') ∧
        ¬∃ g', g.renameType "Post" "Person" = .ok g' := by
  intro post es
  have hes : ∀ e ∈ es, e.Built := by
    simp only [es, List.forall_mem_cons, List.not_mem_nil, Edit.Built, true_and, false_implies,
      implies_true, and_true]
    exact .withField (.withField (.make "Post" .object) "related" "Post" true false) "author"
      "Person" false true
  have hnames : ((∅ : Graph).applyAll es).toOption.map typeNames = some ["Person", "Post"] := by
    decide +kernel
  obtain ⟨g, hrun, hbefore⟩ := exists_eq_ok_of_map hnames
  have hexact := renamesExactly_of_applyAll hes hrun
  have hhas : ∀ name, g.hasType name = true ↔ name ∈ ["Person", "Post"] := by
    intro name
    rw [hasType, Keyed.contains_iff_mem_keys, ← hbefore]
    rfl
  have hpost : g.hasType "Post" = true := (hhas "Post").2 (by decide)
  have hunused : g.Unused "Article" :=
    { valid := (isValidName_iff _).1 (by decide +kernel)
      unreserved := (isReservedName_eq_false_iff _).1 (by decide +kernel)
      fresh := Bool.eq_false_iff.2 fun h => absurd ((hhas _).1 h) (by decide) }
  obtain ⟨g', h⟩ := (hexact.renames_iff "Post" "Article").2 ⟨hpost, .inr hunused⟩
  refine ⟨g, hes, hrun, hexact, ⟨g', h, ?_, ?_⟩, ?_, ?_⟩
  · rw [hexact.typeNames h, hbefore]
    decide
  · exact (hexact.given_up _ _ _ h).imp fun _ _ ht => ht.imp fun _ _ hf hname =>
      absurd (hf hname) (by decide)
  · intro hdate
    obtain ⟨-, hsame | hunused⟩ := (hexact.renames_iff ..).1 hdate
    · exact absurd hsame (by decide)
    · exact absurd ((isReservedName_eq_false_iff _).2 hunused.unreserved) (by decide +kernel)
  · intro hperson
    obtain ⟨-, hsame | hunused⟩ := (hexact.renames_iff ..).1 hperson
    · exact absurd hsame (by decide)
    · exact absurd ((hhas "Person").2 (by decide)) (Bool.eq_false_iff.1 hunused.fresh)

end Graph

end SchemaGraph
