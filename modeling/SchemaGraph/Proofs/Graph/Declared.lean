import SchemaGraph.Proofs.Graph.NormalForm

/-! What a document is loaded as: its object and interface types as they are declared, in the order
of the text. Only names that come twice, lists of lists and the rules are in the way. No other
definition has a say in it, and of the views only the versions. -/

namespace SchemaGraph

/-! Maps with one entry for each declaration -/

namespace Keyed

variable {α δ : Type} {key : δ → String} {S : δ → α → Prop} {ds : List δ} {m : Keyed α}

def Lists (key : δ → String) (S : δ → α → Prop) (ds : List δ) (m : Keyed α) : Prop :=
  List.Forall₂ (fun d e => e.1 = key d ∧ S d e.2) ds m.entries

theorem lists_iff_exists_declared : m.Lists key S ds ↔ ∃ ps : List (Declared α δ),
    ps.map Prod.snd = ds ∧ ps.map Prod.fst = m.entries ∧
      ∀ p ∈ ps, p.1.1 = key p.2 ∧ S p.2 p.1.2 := by
  constructor
  · intro h
    obtain ⟨hlength, hzip⟩ := List.forall₂_iff_zip.1 (List.Forall₂.flip h)
    exact ⟨m.entries.zip ds, List.map_snd_zip (Nat.le_of_eq hlength.symm),
      List.map_fst_zip (Nat.le_of_eq hlength), fun _ hp => hzip hp⟩
  · rintro ⟨ps, rfl, hentries, hps⟩
    rw [Lists, ← hentries, List.forall₂_map_left_iff, List.forall₂_map_right_iff,
      List.forall₂_same]
    exact hps

theorem Lists.keys_eq (h : m.Lists key S ds) : m.keys = ds.map key := by
  obtain ⟨ps, rfl, hentries, hps⟩ := lists_iff_exists_declared.1 h
  rw [keys, ← hentries, List.map_map, List.map_map]
  exact List.map_congr_left fun p hp => (hps p hp).1

theorem Lists.exists_of_mem (h : m.Lists key S ds) {d : δ} (hd : d ∈ ds) : ∃ v, S d v := by
  obtain ⟨ps, rfl, -, hps⟩ := lists_iff_exists_declared.1 h
  obtain ⟨p, hp, rfl⟩ := List.mem_map.1 hd
  exact ⟨p.1.2, (hps p hp).2⟩

theorem exists_declared_of_forall (key : δ → String) (h : ∀ d ∈ ds, ∃ v, S d v) :
    ∃ ps : List (Declared α δ), ps.map Prod.snd = ds ∧
      ∀ p ∈ ps, p.1.1 = key p.2 ∧ S p.2 p.1.2 := by
  induction ds with
  | nil => exact ⟨[], rfl, fun _ hp => absurd hp List.not_mem_nil⟩
  | cons d ds ih =>
    obtain ⟨⟨v, hv⟩, hrest⟩ := List.forall_mem_cons.1 h
    obtain ⟨ps, rfl, hps⟩ := ih hrest
    exact ⟨((key d, v), d) :: ps, rfl, List.forall_mem_cons.2 ⟨⟨rfl, hv⟩, hps⟩⟩

theorem exists_lists_iff : (∃ m : Keyed α, m.Lists key S ds) ↔
    (ds.map key).Nodup ∧ ∀ d ∈ ds, ∃ v, S d v := by
  constructor
  · rintro ⟨m, h⟩
    exact ⟨h.keys_eq ▸ m.nodup, fun _ => h.exists_of_mem⟩
  · rintro ⟨hnodup, h⟩
    obtain ⟨ps, rfl, hps⟩ := exists_declared_of_forall key h
    have hkeys : (ps.map Prod.fst).map Prod.fst = (ps.map Prod.snd).map key := by
      rw [List.map_map, List.map_map]
      exact List.map_congr_left fun p hp => (hps p hp).1
    exact ⟨⟨ps.map Prod.fst, hkeys ▸ hnodup⟩, lists_iff_exists_declared.2 ⟨ps, rfl, rfl, hps⟩⟩

end Keyed

/-! What declarations say -/

inductive FieldType.DeclaredBy : Sdl.TypeRef → FieldType → Prop where
  | named (name : String) (nonNull : Bool) :
      DeclaredBy (.named name nonNull) (.make name false nonNull)
  | list (name : String) (itemNonNull nonNull : Bool) :
      DeclaredBy (.list (.named name itemNonNull) nonNull) (.make name true nonNull)

structure Field.DeclaredBy (d : Sdl.FieldDeclaration) (f : Field) : Prop where
  name : f.name = d.name
  description : f.description = d.description
  arguments : f.arguments = d.arguments.map FieldArgument.ofSyntax
  directives : f.directives = d.directives.map Annotation.ofSyntax
  type : FieldType.DeclaredBy d.type f.type

structure TypeDef.DeclaredBy (views : List ViewVersion) (d : Sdl.TypeDeclaration) (t : TypeDef) :
    Prop where
  name : t.name = d.name
  kind : t.kind = d.kind
  description : t.description = d.description
  directives : t.directives = d.directives.map Annotation.ofSyntax
  fields : t.fields.Lists Sdl.FieldDeclaration.name Field.DeclaredBy d.fields
  version : t.version = (views.find? fun v => v.externalId = d.name).map ViewVersion.version

def Graph.DeclaredBy (views : List ViewVersion) (ds : Sdl.Document) (g : Graph) : Prop :=
  g.types.Lists Sdl.TypeDeclaration.name (TypeDef.DeclaredBy views) (Sdl.declarations ds)

/-! Loading -/

theorem FieldType.ofSyntax?_eq_some_iff {r : Sdl.TypeRef} {t : FieldType} :
    ofSyntax? r = some t ↔ DeclaredBy r t := by
  constructor
  · intro h
    match r with
    | .named name nonNull =>
      cases h
      exact .named name nonNull
    | .list (.named name itemNonNull) nonNull =>
      cases h
      exact .list name itemNonNull nonNull
    | .list (.list ..) _ => cases h
  · rintro ⟨⟩ <;> rfl

theorem Field.ofSyntax_eq_ok_iff {typeName : String} {d : Sdl.FieldDeclaration} {f : Field} :
    ofSyntax typeName d = .ok f ↔ f.DeclaredBy d := by
  have htype : ∀ t, FieldType.ofSyntax? d.type = some t ↔ FieldType.DeclaredBy d.type t :=
    fun _ => FieldType.ofSyntax?_eq_some_iff
  unfold ofSyntax
  cases hread : FieldType.ofSyntax? d.type with
  | none =>
    constructor
    · rintro ⟨⟩
    · intro h
      cases hread.symm.trans ((htype f.type).2 h.type)
  | some t =>
    constructor
    · rintro ⟨⟩
      exact ⟨rfl, rfl, rfl, rfl, (htype t).1 hread⟩
    · rintro ⟨hname, hdescription, harguments, hdirectives, hdeclared⟩
      obtain rfl : t = f.type := Option.some.inj (hread.symm.trans ((htype f.type).2 hdeclared))
      rw [← hname, ← hdescription, ← harguments, ← hdirectives]

theorem TypeDef.addFields_eq_ok_iff_lists {typeName : String} {ds : List Sdl.FieldDeclaration}
    {fields : Keyed Field} : addFields typeName ∅ ds = .ok fields ↔
      fields.Lists Sdl.FieldDeclaration.name Field.DeclaredBy ds := by
  constructor
  · intro h
    obtain ⟨ps, rfl, hentries, hps⟩ := exists_declared_of_addFields h
    refine Keyed.lists_iff_exists_declared.2 ⟨ps, rfl, hentries.symm, fun p hp => ?_⟩
    exact ⟨(hps p hp).1.symm, Field.ofSyntax_eq_ok_iff.1 (hps p hp).2⟩
  · intro h
    obtain ⟨ps, rfl, hentries, hps⟩ := Keyed.lists_iff_exists_declared.1 h
    refine (addFields_eq_ok_iff hentries).2 fun p hp => ?_
    exact ⟨(hps p hp).1.symm, Field.ofSyntax_eq_ok_iff.2 (hps p hp).2⟩

theorem TypeDef.ofSyntax_eq_ok_iff_declaredBy {views : List ViewVersion}
    {d : Sdl.TypeDeclaration} {t : TypeDef} :
    ofSyntax views d = .ok t ↔ t.DeclaredBy views d := by
  rw [ofSyntax_eq_ok_iff, addFields_eq_ok_iff_lists]
  constructor
  · rintro ⟨hfields, hdescription, hdirectives, hkind, hname, hversion⟩
    exact ⟨hname.symm, hkind.symm, hdescription.symm, hdirectives.symm, hfields, hversion.symm⟩
  · rintro ⟨hname, hkind, hdescription, hdirectives, hfields, hversion⟩
    exact ⟨hfields, hdescription.symm, hdirectives.symm, hkind.symm, hname.symm, hversion.symm⟩

namespace Graph

variable {views : List ViewVersion} {ds : Sdl.Document} {g : Graph}

theorem addDefinitions_declarations (views : List ViewVersion) (types : Keyed TypeDef)
    (ds : Sdl.Document) : addDefinitions views types ((Sdl.declarations ds).map .type) =
      addDefinitions views types ds := by
  induction ds generalizing types with
  | nil => rfl
  | cons d ds ih =>
    cases d with
    | type d =>
      show addDefinitions views types (.type d :: (Sdl.declarations ds).map .type) = _
      rw [addDefinitions, addDefinitions]
      simp only [ih]
    | _ => exact ih types

theorem ofDocument_declarations (views : List ViewVersion) (ds : Sdl.Document) :
    ofDocument views ((Sdl.declarations ds).map .type) = ofDocument views ds :=
  congrArg (Except.map Graph.mk) (addDefinitions_declarations views ∅ ds)

theorem ofDocument_eq_ok_iff_declaredBy :
    ofDocument views ds = .ok g ↔ g.DeclaredBy views ds := by
  constructor
  · intro h
    obtain ⟨ps, hds, hentries, hps⟩ := exists_declared h
    refine Keyed.lists_iff_exists_declared.2 ⟨ps, hds, hentries, fun p hp => ?_⟩
    have hdeclared := TypeDef.ofSyntax_eq_ok_iff_declaredBy.1 (hps p hp).2
    exact ⟨(hps p hp).1.symm.trans hdeclared.name, hdeclared⟩
  · intro h
    obtain ⟨ps, hds, hentries, hps⟩ := Keyed.lists_iff_exists_declared.1 h
    rw [← ofDocument_declarations, ← hds, List.map_map]
    refine (ofDocument_eq_ok_iff hentries).2 fun p hp => ?_
    obtain ⟨hkey, hdeclared⟩ := hps p hp
    exact ⟨hdeclared.name.trans hkey.symm, TypeDef.ofSyntax_eq_ok_iff_declaredBy.2 hdeclared⟩

/-! When there is a graph -/

end Graph

def Sdl.TypeRef.NestsList : Sdl.TypeRef → Prop
  | .list (.list ..) _ => True
  | _ => False

theorem FieldType.exists_declaredBy_iff {r : Sdl.TypeRef} :
    (∃ t, FieldType.DeclaredBy r t) ↔ ¬r.NestsList := by
  constructor
  · rintro ⟨_, ⟨⟩⟩ <;> exact not_false
  · intro h
    match r with
    | .named name nonNull => exact ⟨_, .named name nonNull⟩
    | .list (.named name itemNonNull) nonNull => exact ⟨_, .list name itemNonNull nonNull⟩
    | .list (.list ..) _ => exact absurd trivial h

theorem Field.exists_declaredBy_iff {d : Sdl.FieldDeclaration} :
    (∃ f, Field.DeclaredBy d f) ↔ ¬d.type.NestsList := by
  rw [← FieldType.exists_declaredBy_iff]
  constructor
  · rintro ⟨f, h⟩
    exact ⟨f.type, h.type⟩
  · rintro ⟨t, h⟩
    exact ⟨⟨_, _, _, t, _⟩, rfl, rfl, rfl, rfl, h⟩

theorem TypeDef.exists_declaredBy_iff {views : List ViewVersion} {d : Sdl.TypeDeclaration} :
    (∃ t, TypeDef.DeclaredBy views d t) ↔
      (d.fields.map Sdl.FieldDeclaration.name).Nodup ∧ ∀ f ∈ d.fields, ¬f.type.NestsList := by
  have hfields : (∃ m : Keyed Field, m.Lists Sdl.FieldDeclaration.name Field.DeclaredBy d.fields) ↔
      _ := Keyed.exists_lists_iff
  simp only [Field.exists_declaredBy_iff] at hfields
  rw [← hfields]
  constructor
  · rintro ⟨t, h⟩
    exact ⟨t.fields, h.fields⟩
  · rintro ⟨fields, h⟩
    exact ⟨⟨_, _, fields, _, _, _⟩, rfl, rfl, rfl, rfl, h, rfl⟩

namespace Graph

variable {views : List ViewVersion} {ds : Sdl.Document} {g : Graph}

theorem exists_declaredBy_iff : (∃ g, Graph.DeclaredBy views ds g) ↔
    ((Sdl.declarations ds).map Sdl.TypeDeclaration.name).Nodup ∧
      ∀ d ∈ Sdl.declarations ds, (d.fields.map Sdl.FieldDeclaration.name).Nodup ∧
        ∀ f ∈ d.fields, ¬f.type.NestsList := by
  have htypes : (∃ m : Keyed TypeDef, m.Lists Sdl.TypeDeclaration.name
      (TypeDef.DeclaredBy views) (Sdl.declarations ds)) ↔ _ := Keyed.exists_lists_iff
  simp only [TypeDef.exists_declaredBy_iff] at htypes
  rw [← htypes]
  constructor
  · rintro ⟨g, h⟩
    exact ⟨g.types, h⟩
  · rintro ⟨types, h⟩
    exact ⟨⟨types⟩, h⟩

end Graph

/-! Versions -/

def TypeDef.withVersion (views : List ViewVersion) (t : TypeDef) : TypeDef :=
  { t with version := (views.find? fun v => v.externalId = t.name).map ViewVersion.version }

def Graph.withVersions (views : List ViewVersion) (g : Graph) : Graph :=
  ⟨g.types.mapValues (TypeDef.withVersion views)⟩

theorem Keyed.contains_mapValues {α β : Type} (m : Keyed α) (f : α → β) (k : String) :
    (m.mapValues f).contains k = m.contains k := by
  rw [contains, get?_mapValues, Option.isSome_map]
  rfl

theorem TypeDef.ofSyntax_withVersion (views others : List ViewVersion) (d : Sdl.TypeDeclaration) :
    ofSyntax others d = (ofSyntax views d).map (withVersion others) := by
  unfold ofSyntax
  cases addFields d.name ∅ d.fields with
  | error e => rfl
  | ok fields => rfl

namespace Graph

variable (views others : List ViewVersion)

theorem addDefinitions_withVersions (types : Keyed TypeDef) (ds : Sdl.Document) :
    addDefinitions others (types.mapValues (TypeDef.withVersion others)) ds =
      (addDefinitions views types ds).map (Keyed.mapValues (TypeDef.withVersion others)) := by
  induction ds generalizing types with
  | nil => rfl
  | cons d ds ih =>
    cases d with
    | type d =>
      rw [addDefinitions, addDefinitions, TypeDef.ofSyntax_withVersion views others]
      cases TypeDef.ofSyntax views d with
      | error e => rfl
      | ok t =>
        show (if (types.mapValues _).contains t.name then _ else
            addDefinitions others ((types.mapValues _).insert t.name (t.withVersion others)) ds) =
          (if types.contains t.name then _ else
            addDefinitions views (types.insert t.name t) ds).map _
        rw [Keyed.contains_mapValues, Keyed.insert_mapValues, ih]
        split
        · rfl
        · rfl
    | _ => exact ih types

theorem load_withVersions (s : String) :
    load others s = (load views s).map (withVersions others) := by
  unfold load
  split
  · rfl
  · cases Sdl.Document.ofText s.toList with
    | error p => rfl
    | ok ds =>
      show ofDocument others ds = (ofDocument views ds).map _
      unfold ofDocument
      rw [show addDefinitions others ∅ ds = _ from addDefinitions_withVersions views others ∅ ds]
      cases addDefinitions views ∅ ds with
      | error e => rfl
      | ok types => rfl

theorem violations_withVersions (g : Graph) : (g.withVersions views).violations = g.violations := by
  have hresolves : (g.withVersions views).resolves = g.resolves := by
    funext name
    rw [resolves, resolves, hasType, withVersions, Keyed.contains_mapValues]
    rfl
  have htype : ∀ key t, typeViolations (g.withVersions views) key (t.withVersion views) =
      typeViolations g key t := by
    intro key t
    simp only [typeViolations, fieldViolations, hresolves]
    rfl
  show (g.types.entries.map _).flatMap _ = _
  rw [List.flatMap_map]
  simp only [htype]
  rfl

theorem parse_withVersions (s : String) :
    parse others s = (parse views s).map (withVersions others) := by
  unfold parse
  rw [load_withVersions views others]
  cases load views s with
  | error e => rfl
  | ok g =>
    show (g.withVersions others).validated = g.validated.map (withVersions others)
    unfold validated
    rw [violations_withVersions]
    cases g.violations with
    | nil => rfl
    | cons v vs => rfl

end Graph

/-! Other definitions -/

def Sdl.Definition.declares : Sdl.Definition → Bool
  | .type _ => true
  | _ => false

theorem Sdl.declarations_filter (ds : Sdl.Document) :
    declarations (ds.filter Definition.declares) = declarations ds := by
  induction ds with
  | nil => rfl
  | cons d ds ih =>
    cases d with
    | type d => exact congrArg (d :: ·) ih
    | _ => exact ih

namespace Graph

variable {views : List ViewVersion} {s : String} {ds : Sdl.Document} {g : Graph}

theorem parse_of_ofText (h : Sdl.Document.ofText s.toList = .ok ds) (views : List ViewVersion) :
    parse views s = (ofDocument views ds).bind validated := by
  rw [parse, load_of_ofText h]
  cases ofDocument views ds with
  | error e => rfl
  | ok g => rfl

theorem ofDocument_congr {ds' : Sdl.Document} (h : Sdl.declarations ds' = Sdl.declarations ds)
    (views : List ViewVersion) : ofDocument views ds' = ofDocument views ds := by
  rw [← ofDocument_declarations, h, ofDocument_declarations]

/-- What becomes of a text that holds the document: when it is refused, which graph it is read as,
and on which parts of the document and of the views that depends. -/
structure LoadsExactly (views : List ViewVersion) (s : String) (ds : Sdl.Document) : Prop where
  fails_iff : (∃ e, parse views s = .error e) ↔
    ¬((Sdl.declarations ds).map Sdl.TypeDeclaration.name).Nodup ∨
      (∃ d ∈ Sdl.declarations ds, ¬(d.fields.map Sdl.FieldDeclaration.name).Nodup) ∨
        (∃ d ∈ Sdl.declarations ds, ∃ f ∈ d.fields, f.type.NestsList) ∨
          ∃ g : Graph, g.DeclaredBy views ds ∧ g.violations ≠ []
  loads_iff : ∀ g : Graph, parse views s = .ok g ↔ g.DeclaredBy views ds ∧ g.violations = []
  dropped : (ofDocument views (ds.filter Sdl.Definition.declares)).bind validated = parse views s
  alike : ∀ s' ds', Sdl.Document.ofText s'.toList = .ok ds' →
    Sdl.declarations ds' = Sdl.declarations ds → parse views s' = parse views s
  versions : ∀ others, parse others s = (parse views s).map (withVersions others)

theorem parse_eq_ok_iff_declaredBy (h : Sdl.Document.ofText s.toList = .ok ds) :
    parse views s = .ok g ↔ g.DeclaredBy views ds ∧ g.violations = [] := by
  rw [parse_of_ofText h, ← ofDocument_eq_ok_iff_declaredBy]
  cases ofDocument views ds with
  | error e => simp [Except.bind]
  | ok g' =>
    show g'.validated = .ok g ↔ _
    rw [validated_eq_ok_iff, Except.ok.injEq]
    constructor
    · rintro ⟨hviolations, rfl⟩
      exact ⟨rfl, hviolations⟩
    · rintro ⟨rfl, hviolations⟩
      exact ⟨hviolations, rfl⟩

theorem parse_fails_iff (h : Sdl.Document.ofText s.toList = .ok ds) :
    (∃ e, parse views s = .error e) ↔ (¬∃ g : Graph, g.DeclaredBy views ds) ∨
      ∃ g : Graph, g.DeclaredBy views ds ∧ g.violations ≠ [] := by
  have hok : (∃ e, parse views s = .error e) ↔ ¬∃ g, parse views s = .ok g := by
    cases parse views s <;> simp
  rw [hok]
  simp only [parse_eq_ok_iff_declaredBy h]
  constructor
  · intro hnone
    by_cases hsome : ∃ g : Graph, g.DeclaredBy views ds
    · obtain ⟨g, hg⟩ := hsome
      exact .inr ⟨g, hg, fun hviolations => hnone ⟨g, hg, hviolations⟩⟩
    · exact .inl hsome
  · rintro (hnone | ⟨g, hg, hviolations⟩) ⟨g', hg', hviolations'⟩
    · exact hnone ⟨g', hg'⟩
    · have heq := (ofDocument_eq_ok_iff_declaredBy.2 hg).symm.trans
        (ofDocument_eq_ok_iff_declaredBy.2 hg')
      obtain rfl := Except.ok.inj heq
      exact hviolations hviolations'

theorem loadsExactly (views : List ViewVersion) (h : Sdl.Document.ofText s.toList = .ok ds) :
    LoadsExactly views s ds where
  fails_iff := by
    rw [parse_fails_iff h, exists_declaredBy_iff]
    simp only [forall₂_and, not_and_or, not_forall, exists_prop, not_not, or_assoc]
  loads_iff _ := parse_eq_ok_iff_declaredBy h
  dropped := by
    rw [parse_of_ofText h, ofDocument_congr (Sdl.declarations_filter ds)]
  alike s' ds' h' hsame := by
    rw [parse_of_ofText h, parse_of_ofText h', ofDocument_congr hsame]
  versions others := parse_withVersions views others s

/-- Of four definitions the scalar type and the extension are passed over. -/
theorem loadsExactly_of_blog_text :
    let s := "scalar Date type Post { title: String } extend type Post { body: Int } " ++
      "interface Person { posts(first: Int = 10): [Post!]! }"
    let views : List ViewVersion := [⟨"Post", "1"⟩, ⟨"Post", "2"⟩]
    ∃ ds g, Sdl.Document.ofText s.toList = .ok ds ∧ ds.length = 4 ∧
      parse views s = .ok g ∧ g.DeclaredBy views ds ∧
      g.types.entries.map (fun e => (e.1, e.2.fields.keys, e.2.version)) =
        [("Post", ["title"], some "1"), ("Person", ["posts"], none)] := by
  intro s views
  have hdocument : (Sdl.Document.ofText s.toList).toOption.map List.length = some 4 := by
    decide +kernel
  obtain ⟨ds, hds, hlength⟩ := exists_eq_ok_of_map hdocument
  have hread : (parse views s).toOption.map (fun g =>
      g.types.entries.map fun e => (e.1, e.2.fields.keys, e.2.version)) =
        some [("Post", ["title"], some "1"), ("Person", ["posts"], none)] := by
    decide +kernel
  obtain ⟨g, hparse, hentries⟩ := exists_eq_ok_of_map hread
  have hdeclared := (((loadsExactly views hds).loads_iff g).1 hparse).1
  exact ⟨ds, g, hds, hlength, hparse, hdeclared, hentries⟩

end Graph

end SchemaGraph
