import SchemaGraph.Proofs.Graph.Name
import SchemaGraph.Proofs.Graph.Upkeep

/-! What holds of every graph that edits lead to from the empty one. The rules alone are not
inductive: no rule speaks of names or of the mark of custom types, and adding a type checks no
rule. What every edit preserves is the rules together with what edits make sure of. -/

namespace SchemaGraph

/-- Of a graph that is made by edits alone, all keys are names that edits accept. -/
def KeyRule.edited : KeyRule where
  type name := isValidName name = true ∧ isReservedName name = false
  field name := isValidName name = true
  type_of_new _ h := h
  field_of_new _ h := h

namespace Graph

variable {g g' : Graph}

structure Kept (g : Graph) : Prop where
  rules : g.violations = []
  made : g.Follows .edited

theorem kept_empty : (∅ : Graph).Kept := ⟨rfl, Keyed.all_empty⟩

theorem Kept.applyAll (h : g.Kept) {es : List Edit} (hes : ∀ e ∈ es, e.Built)
    (hrun : g.applyAll es = .ok g') : g'.Kept := by
  obtain ⟨hrules, hmade⟩ := follows_applyAll h.rules h.made hes hrun
  exact ⟨hrules, hmade⟩

structure Sound (g : Graph) : Prop where
  type_keys : g.types.All fun key t => key = t.name
  field_keys : g.types.All fun _ t => t.fields.All fun key f => key = f.name
  type_names : g.types.All fun _ t => ValidName t.name
  field_names : g.types.All fun _ t => t.fields.All fun _ f => ValidName f.name
  unreserved : g.types.All fun _ t =>
    (∀ b ∈ Builtin.all, b.name ≠ t.name) ∧ t.name ∉ Builtin.resourceReferences
  resolved : g.types.All fun _ t => t.fields.All fun _ f =>
    Builtin.isFieldType f.type.name = true ∨ f.type.name ∈ g.types.keys
  inline_single : g.types.All fun _ t => t.isInline = true → t.fields.All fun _ f =>
    f.isRelation = true → f.type.isList = false
  marks : g.types.All fun _ t => t.fields.All fun _ f =>
    (f.type.isCustom = true ↔ Builtin.isScalar f.type.name = false)

theorem Kept.sound (h : g.Kept) : g.Sound := by
  have hrules := (violations_eq_nil_iff g).1 h.rules
  constructor
  · exact type_keys_of_rules h.rules
  · exact hrules.imp fun _ t ht => ht.2.imp fun _ f hf => hf.1
  · intro e he
    exact (isValidName_iff _).1 (type_keys_of_rules h.rules e he ▸ (h.made e he).1.1)
  · intro e he a ha
    have hkey : a.1 = a.2.name := ((hrules e he).2 a ha).1
    exact (isValidName_iff _).1 (hkey ▸ ((h.made e he).2 a ha).1)
  · intro e he
    exact (isReservedName_eq_false_iff _).1 (type_keys_of_rules h.rules e he ▸ (h.made e he).1.2)
  · intro e he a ha
    have hres := ((hrules e he).2 a ha).2.1
    rw [resolves, Bool.or_eq_true] at hres
    exact hres.imp_right (Keyed.contains_iff_mem_keys g.types _).1
  · intro e he hinline a ha hrelation
    simpa [hinline, hrelation] using ((hrules e he).2 a ha).2.2
  · intro e he a ha
    have hmark : a.2.type.isCustom = !Builtin.isScalar a.2.type.name := ((h.made e he).2 a ha).2
    simp [hmark]

theorem sound_of_applyAll {es : List Edit} (hes : ∀ e ∈ es, e.Built)
    (hrun : (∅ : Graph).applyAll es = .ok g) : g.Sound :=
  (kept_empty.applyAll hes hrun).sound

/-- A renaming with a reference to follow, a definition from outside and edits of fields. -/
theorem sound_of_blog_edits :
    let post := (TypeDef.make "Post" .object).withField
      (.make "author" (.make "Person" false true))
    let tags : FieldProps := ⟨[], none, [], true, false, "String"⟩
    let day : FieldUpdates :=
      ⟨none, some "first day", none, some false, none, some "day", some "Date"⟩
    let es : List Edit :=
      [.addType "Person" .object (some "@inline"), .setType "Post" post,
        .renameType "Person" "Author", .addField "Post" "tags" tags,
        .updateField "Post" "tags" day, .addField "Author" "name" tags,
        .removeField "Author" "name"]
    (∀ e ∈ es, e.Built) ∧
      ∃ g : Graph, (∅ : Graph).applyAll es = .ok g ∧ g.typeNames = ["Author", "Post"] ∧
        g.Sound := by
  intro post tags day es
  have hes : ∀ e ∈ es, e.Built := by
    simp only [es, List.forall_mem_cons, List.not_mem_nil, Edit.Built, true_and, false_implies,
      implies_true, and_true]
    exact .withField (.make "Post" .object) "author" "Person" false true
  have hnames : ((∅ : Graph).applyAll es).toOption.map typeNames = some ["Author", "Post"] := by
    decide +kernel
  cases hrun : (∅ : Graph).applyAll es with
  | error err =>
    rw [hrun] at hnames
    cases hnames
  | ok g =>
    rw [hrun] at hnames
    exact ⟨hes, g, rfl, Option.some.inj hnames, sound_of_applyAll hes hrun⟩

end Graph

end SchemaGraph
