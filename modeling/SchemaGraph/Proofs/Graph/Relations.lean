import SchemaGraph.Proofs.Graph.Loaded
import SchemaGraph.Proofs.Graph.Upkeep

/-! Which fields are relations in graphs that come from text or from edits of such graphs. A field
that leads to a type of the graph is one, unless the text defines a type under a name that has a
meaning without it, which no edit does. -/

namespace SchemaGraph

theorem FieldType.settled_ofSyntax {t : Sdl.TypeRef} {type : FieldType}
    (h : ofSyntax? t = some type) : type.Settled := by
  match t, h with
  | .named name nonNull, rfl => rfl
  | .list (.named name _) nonNull, rfl => rfl

theorem Field.settled_ofSyntax {typeName : String} {d : Sdl.FieldDeclaration} {f : Field}
    (h : ofSyntax typeName d = .ok f) : f.type.Settled := by
  unfold ofSyntax at h
  split at h
  · rename_i type htype
    cases h
    exact FieldType.settled_ofSyntax htype
  · cases h

def TypeDef.Settled (t : TypeDef) : Prop := t.fields.All fun _ f => f.type.Settled

theorem TypeDef.settled_addFields {typeName : String} {ds : List Sdl.FieldDeclaration}
    {fields all : Keyed Field} (hfields : fields.All fun _ f => f.type.Settled)
    (h : addFields typeName fields ds = .ok all) : all.All fun _ f => f.type.Settled := by
  fun_induction addFields typeName fields ds with
  | case1 fields =>
    cases h
    exact hfields
  | case2 | case3 => cases h
  | case4 fields d ds _ f hf ih => exact ih (hfields.insert (Field.settled_ofSyntax hf)) h

theorem TypeDef.settled_ofSyntax {views : List ViewVersion} {d : Sdl.TypeDeclaration}
    {t : TypeDef} (h : ofSyntax views d = .ok t) : t.Settled := by
  unfold ofSyntax at h
  split at h
  · cases h
  · rename_i fields hfields
    cases h
    exact settled_addFields Keyed.all_empty hfields

namespace Graph

variable {views : List ViewVersion} {s : String} {g g' : Graph}

theorem settled_load (h : load views s = .ok g) : g.types.All fun _ t => t.Settled := by
  obtain ⟨-, rfl⟩ | ⟨ds, -, hdocument⟩ := exists_document_of_load h
  · exact Keyed.all_empty
  · obtain ⟨ps, -, hentries, hload⟩ := exists_declared hdocument
    intro e he
    obtain ⟨p, hp, rfl⟩ := List.mem_map.1 (hentries ▸ he)
    exact TypeDef.settled_ofSyntax (hload p hp).2

theorem rules_and_settled_of_parse (h : parse views s = .ok g) :
    g.violations = [] ∧ g.types.All fun _ t => t.Settled := by
  obtain ⟨hload, hrules⟩ := parse_eq_ok_iff.1 h
  exact ⟨hrules, settled_load hload⟩

end Graph

namespace KeyRule

def arbitrary : KeyRule := ⟨fun _ => True, fun _ => True, fun _ _ => trivial, fun _ _ => trivial⟩

/-- Types have names that fields can only refer to because the types are there. -/
def unpredefined : KeyRule where
  type name := Builtin.isFieldType name = false
  field _ := True
  type_of_new _ h := (Bool.or_eq_false_iff.1 h.2).2
  field_of_new _ _ := trivial

theorem follows_of_settled {r : KeyRule} (hfield : ∀ name, r.field name) {g : Graph}
    (htypes : ∀ name ∈ g.typeNames, r.type name) (h : g.types.All fun _ t => t.Settled) :
    g.Follows r := fun e he =>
  ⟨htypes e.1 (List.mem_map_of_mem he), (h e he).imp fun key _ hf => ⟨hfield key, hf⟩⟩

end KeyRule

theorem FieldType.Settled.isRelation_iff {f : Field} (h : f.type.Settled) :
    f.isRelation = true ↔ Builtin.isFieldType f.type.name = false := by
  have hmark : f.type.isCustom = !Builtin.isScalar f.type.name := h
  simp [Field.isRelation, Builtin.isFieldType, hmark]

namespace Graph

theorem isRelation_iff_of_follows {r : KeyRule} {g : Graph} (hrules : g.violations = [])
    (h : g.Follows r) : g.types.All fun _ t => t.fields.All fun _ f =>
      (f.isRelation = true ↔
        f.type.name ∈ g.typeNames ∧ Builtin.isFieldType f.type.name = false) := by
  intro e he a ha
  have hresolves := (((violations_eq_nil_iff g).1 hrules e he).2 a ha).2.1
  rw [((h e he).2 a ha).2.isRelation_iff]
  refine ⟨fun hunknown => ⟨?_, hunknown⟩, And.right⟩
  -- A name that resolves, but not by itself, is that of a type.
  rw [resolves, hunknown, Bool.false_or] at hresolves
  exact (Keyed.contains_iff_mem_keys g.types _).1 hresolves

variable {views : List ViewVersion} {s : String} {g₀ g : Graph} {es : List Edit}

/-- A field is a relation if its type is in the graph and means nothing without it. If that holds
of all types of the text, it holds of all types that edits lead to. -/
theorem isRelation_iff_of_parse_applyAll (hparse : parse views s = .ok g₀)
    (hes : ∀ e ∈ es, e.Built) (hrun : g₀.applyAll es = .ok g) :
    (g.types.All fun _ t => t.fields.All fun _ f => (f.isRelation = true ↔
      f.type.name ∈ g.typeNames ∧ Builtin.isFieldType f.type.name = false)) ∧
    ((∀ name ∈ g₀.typeNames, Builtin.isFieldType name = false) →
      g.types.All fun _ t => t.fields.All fun _ f =>
        (f.isRelation = true ↔ f.type.name ∈ g.typeNames)) := by
  obtain ⟨hrules₀, hsettled₀⟩ := rules_and_settled_of_parse hparse
  constructor
  · have hfollows₀ : g₀.Follows .arbitrary :=
      KeyRule.follows_of_settled (fun _ => trivial) (fun _ _ => trivial) hsettled₀
    obtain ⟨hrules, hfollows⟩ := follows_applyAll hrules₀ hfollows₀ hes hrun
    exact isRelation_iff_of_follows hrules hfollows
  · intro hnames
    have hfollows₀ : g₀.Follows .unpredefined :=
      KeyRule.follows_of_settled (fun _ => trivial) hnames hsettled₀
    obtain ⟨hrules, hfollows⟩ := follows_applyAll hrules₀ hfollows₀ hes hrun
    refine (isRelation_iff_of_follows hrules hfollows).imp fun _ t ht => ht.imp fun _ f hf => ?_
    have hkeys : ∀ name ∈ g.typeNames, Builtin.isFieldType name = false := by
      intro name hname
      obtain ⟨e, he, rfl⟩ := List.mem_map.1 hname
      exact (hfollows e he).1
    exact hf.trans ⟨And.left, fun hmem => ⟨hmem, hkeys _ hmem⟩⟩

theorem isRelation_iff_of_blog_text :
    let s := "type Post { author: Person } type Person { name: String }"
    let written : FieldProps := ⟨[], none, [], true, false, "Post"⟩
    let es : List Edit := [.addType "Tag" .object none, .addField "Tag" "posts" written,
      .renameType "Post" "Article"]
    ∃ g₀ g : Graph, parse [] s = .ok g₀ ∧ (∀ e ∈ es, e.Built) ∧ g₀.applyAll es = .ok g ∧
      (∀ name ∈ g₀.typeNames, Builtin.isFieldType name = false) ∧
      g.typeNames = ["Article", "Person", "Tag"] ∧
      g.types.All fun _ t => t.fields.All fun _ f =>
        (f.isRelation = true ↔ f.type.name ∈ g.typeNames) := by
  intro s written es
  have hes : ∀ e ∈ es, e.Built := by
    intro e he
    simp only [es, List.mem_cons, List.not_mem_nil, or_false] at he
    rcases he with rfl | rfl | rfl <;> exact trivial
  have hread : (parse [] s).toOption.map typeNames = some ["Post", "Person"] := by decide +kernel
  obtain ⟨g₀, hparse, hbefore⟩ := exists_eq_ok_of_map hread
  have hedits : ((parse [] s).toOption.bind fun g₀ => (g₀.applyAll es).toOption).map typeNames =
      some ["Article", "Person", "Tag"] := by decide +kernel
  rw [hparse, Except.toOption, Option.bind_some] at hedits
  obtain ⟨g, hrun, hafter⟩ := exists_eq_ok_of_map hedits
  have hunknown : ∀ name ∈ g₀.typeNames, Builtin.isFieldType name = false := by
    rw [hbefore]
    decide
  exact ⟨g₀, g, hparse, hes, hrun, hunknown, hafter,
    (isRelation_iff_of_parse_applyAll hparse hes hrun).2 hunknown⟩

/-- A resource that the text defines as a type stays a resource. -/
theorem not_isRelation_of_defined_resource :
    let s := "type File { name: String } type Report { attachment: File }"
    ∃ g f, parse [] s = .ok g ∧ g.field? "Report" "attachment" = some f ∧
      f.isRelation = false ∧ f.type.name ∈ g.typeNames := by
  intro s
  have hlook : (parse [] s).toOption.map (fun g => (g.field? "Report" "attachment").map fun f =>
      (f.isRelation, decide (f.type.name ∈ g.typeNames))) = some (some (false, true)) := by
    decide +kernel
  obtain ⟨g, hparse, hfield⟩ := exists_eq_ok_of_map hlook
  obtain ⟨f, hf, hmarks⟩ := Option.map_eq_some_iff.1 hfield
  obtain ⟨hrelation, hmem⟩ := Prod.mk.inj hmarks
  exact ⟨g, f, hparse, hf, hrelation, of_decide_eq_true hmem⟩

end Graph

end SchemaGraph
