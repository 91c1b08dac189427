import Mathlib.Data.List.Forall2
import SchemaGraph.Proofs.Graph.Edits
import SchemaGraph.Proofs.Keyed
import SchemaGraph.Query.Build

/-! What is selected of a field. Only lists of related instances are given arguments, and each of
those shows what it was given; whatever else is selected has none at any depth. -/

namespace SchemaGraph

theorem mapM_eq_ok_iff {ε α β : Type} {f : α → Except ε β} {as : List α} {bs : List β} :
    as.mapM f = .ok bs ↔ List.Forall₂ (fun a b => f a = .ok b) as bs := by
  induction as generalizing bs with
  | nil => simp [pure, Except.pure, eq_comm]
  | cons a as ih =>
    rw [List.mapM_cons, bind_eq_ok_iff, List.forall₂_cons_left_iff]
    simp only [bind_eq_ok_iff, ih, pure, Except.pure, Except.ok.injEq]
    constructor
    · rintro ⟨b, hb, bs, hbs, rfl⟩
      exact ⟨b, bs, hb, hbs, rfl⟩
    · rintro ⟨b, bs, hb, hbs, rfl⟩
      exact ⟨b, hb, bs, hbs, rfl⟩

theorem forall_mem_of_forall₂ {α β : Type} {R : α → β → Prop} {Q : β → Prop} {as : List α}
    {bs : List β} (h : List.Forall₂ R as bs) (hQ : ∀ a ∈ as, ∀ b, R a b → Q b) :
    ∀ b ∈ bs, Q b := by
  induction h with
  | nil => exact fun _ hb => absurd hb List.not_mem_nil
  | cons hab _ ih =>
    exact List.forall_mem_cons.2 ⟨hQ _ List.mem_cons_self _ hab,
      ih fun a ha => hQ a (List.mem_cons_of_mem _ ha)⟩

theorem exists_of_forall₂ {α β : Type} {R : α → β → Prop} {as : List α} {bs : List β}
    (h : List.Forall₂ R as bs) {a : α} (ha : a ∈ as) : ∃ b ∈ bs, R a b := by
  induction h with
  | nil => cases ha
  | cons hab _ ih =>
    rcases List.mem_cons.1 ha with rfl | ha
    · exact ⟨_, List.mem_cons_self, hab⟩
    · obtain ⟨b, hb, hR⟩ := ih ha
      exact ⟨b, List.mem_cons_of_mem _ hb, hR⟩

structure Passed where
  field : String
  argument : String
  value : Sdl.Value

namespace Selection

mutual

def passed : Selection → List Passed
  | .field name as cs => as.map (fun a => ⟨name, a.1, a.2⟩) ++ passedAll cs

def passedAll : List Selection → List Passed
  | [] => []
  | c :: cs => c.passed ++ passedAll cs

end

theorem passedAll_eq (cs : List Selection) : passedAll cs = cs.flatMap passed := by
  induction cs with
  | nil => rw [passedAll, List.flatMap_nil]
  | cons c cs ih => rw [passedAll, List.flatMap_cons, ih]

theorem passed_root (name : String) (as : List (String × Sdl.Value))
    (items rest : List Selection) :
    [field name as (node "items" items :: rest)].flatMap passed =
      as.map (fun a => ⟨name, a.1, a.2⟩) ++ (items.flatMap passed ++ rest.flatMap passed) := by
  have hitems : (node "items" items).passed = items.flatMap passed := by
    rw [node, passed, passedAll_eq, List.map_nil, List.nil_append]
  rw [List.flatMap_singleton, passed, passedAll_eq, List.flatMap_cons, hitems]

inductive Bare (names : String → Prop) : Selection → Prop
  | field {name : String} {cs : List Selection} (hname : names name)
      (hchildren : ∀ c ∈ cs, Bare names c) : Bare names (.field name [] cs)

variable {names : String → Prop}

theorem Bare.passed_eq_nil {s : Selection} (h : s.Bare names) : s.passed = [] := by
  induction h with
  | field _ _ ih => rw [passed, passedAll_eq, List.map_nil, List.nil_append,
      List.flatMap_eq_nil_iff.2 ih]

theorem bare_leaf {name : String} (hname : names name) : (leaf name).Bare names :=
  .field hname fun _ hc => absurd hc List.not_mem_nil

theorem bare_leaves {ns : List String} (h : ∀ name ∈ ns, names name) :
    ∀ c ∈ leaves ns, c.Bare names := by
  intro c hc
  obtain ⟨name, hname, rfl⟩ := List.mem_map.1 hc
  exact bare_leaf (h name hname)

end Selection

def Graph.pages (g : Graph) (f : Field) : Bool :=
  f.isRelation && f.type.isList && (g.inlineTarget? f).isNone

/-- How a field is shown: as a page with its arguments, or as something that takes none. -/
structure Graph.Shows (names : String → Prop) (g : Graph) (o : ItemOptions) (f : Field)
    (s : Selection) : Prop where
  name : s.name = f.name
  shape : if g.pages f then s = relationList o f else s.Bare names

def TypeDef.FieldsNamed (names : String → Prop) (t : TypeDef) : Prop :=
  ∀ f ∈ t.fields.values, names f.name

def Graph.FieldsNamed (names : String → Prop) (g : Graph) : Prop :=
  g.types.All fun _ t => t.FieldsNamed names

theorem inlineSelection_name {g : Graph} {levels : Nat} {f : Field} {t : TypeDef} {s : Selection}
    (h : inlineSelection g levels f t = .ok s) : s.name = f.name := by
  have hwith : ∃ expand, inlineWith g expand f t = .ok s := by
    cases levels <;> exact ⟨_, h⟩
  obtain ⟨expand, h⟩ := hwith
  unfold inlineWith at h
  split at h
  · cases h
  · obtain ⟨children, -, h⟩ := bind_eq_ok_iff.1 h
    cases h
    rfl

theorem Graph.FieldsNamed.inlineTarget? {names : String → Prop} {g : Graph}
    (hg : g.FieldsNamed names) {f : Field} {t : TypeDef} (h : g.inlineTarget? f = some t) :
    t.FieldsNamed names :=
  hg.get? (Option.filter_eq_some_iff.1 h).1

section Fields

variable {names : String → Prop} (hsystem : ∀ name ∈ systemFields, names name)
include hsystem

theorem bare_resourceSelection {f : Field} (hname : names f.name) :
    (resourceSelection f).Bare names :=
  .field hname (List.forall_mem_singleton.2
    (Selection.bare_leaf (hsystem _ List.mem_cons_self)))

theorem bare_identity : ∀ c ∈ identity, c.Bare names := Selection.bare_leaves hsystem

variable {g : Graph} (hg : g.FieldsNamed names)
include hg

section Expand

variable {expand : Field → TypeDef → Except QueryError (Option Selection)}
  (hexpand : ∀ f t c, names f.name → t.FieldsNamed names → expand f t = .ok (some c) →
    c.Bare names)
include hexpand

theorem bare_inlineField {f : Field} (hname : names f.name) {c : Selection}
    (h : inlineField g expand f = .ok (some c)) : c.Bare names := by
  unfold inlineField at h
  split at h
  · cases h
    exact bare_resourceSelection hsystem hname
  · split at h
    · cases h
      exact Selection.bare_leaf hname
    · split at h
      · rename_i t ht
        exact hexpand f t c hname (hg.inlineTarget? ht) h
      · cases h
        exact .field hname (bare_identity hsystem)

theorem bare_inlineWith {f : Field} {t : TypeDef} (hname : names f.name)
    (ht : t.FieldsNamed names) {s : Selection} (h : inlineWith g expand f t = .ok s) :
    s.Bare names := by
  unfold inlineWith at h
  split at h
  · cases h
  · obtain ⟨children, hchildren, h⟩ := bind_eq_ok_iff.1 h
    cases h
    have hbare : ∀ o ∈ children, ∀ c, o = some c → c.Bare names :=
      forall_mem_of_forall₂ (mapM_eq_ok_iff.1 hchildren) fun f hf o ho c hc =>
        bare_inlineField hsystem hg hexpand (ht f hf) (hc ▸ ho)
    refine .field hname fun c hc => ?_
    obtain ⟨o, ho, hoc⟩ := List.mem_filterMap.1 hc
    exact hbare o ho c hoc

end Expand

theorem bare_inlineSelection (levels : Nat) {f : Field} {t : TypeDef} {s : Selection}
    (hname : names f.name) (ht : t.FieldsNamed names)
    (h : inlineSelection g levels f t = .ok s) : s.Bare names := by
  induction levels generalizing f t s with
  | zero => exact bare_inlineWith hsystem hg (fun _ _ _ _ _ h => by cases h) hname ht h
  | succ levels ih =>
    refine bare_inlineWith hsystem hg (fun f t c hname ht hc => ?_) hname ht h
    cases hinner : inlineSelection g levels f t with
    | error err =>
      rw [hinner] at hc
      cases hc
    | ok s =>
      rw [hinner] at hc
      cases hc
      exact ih hname ht hinner

theorem shows_of_fieldSelection {o : ItemOptions} {f : Field} (hname : names f.name)
    {s : Selection} (h : fieldSelection g o f = .ok s) : g.Shows names o f s := by
  unfold fieldSelection at h
  split at h
  · rename_i hresource
    cases h
    have hpages : g.pages f = false := by simp [Graph.pages, Field.isRelation, hresource]
    exact ⟨rfl, by rw [hpages]; exact bare_resourceSelection hsystem hname⟩
  · rename_i hresource
    split at h
    · rename_i hcustom
      cases h
      have hpages : g.pages f = false := by
        rw [Bool.not_eq_true'] at hcustom
        simp [Graph.pages, Field.isRelation, hcustom]
      exact ⟨rfl, by rw [hpages]; exact Selection.bare_leaf hname⟩
    · rename_i hcustom
      split at h
      · rename_i t ht
        have hpages : g.pages f = false := by simp [Graph.pages, ht]
        have hbare := bare_inlineSelection hsystem hg 1 hname (hg.inlineTarget? ht) h
        exact ⟨inlineSelection_name h, by rw [hpages]; exact hbare⟩
      · rename_i htarget
        have hpages : g.pages f = f.type.isList := by
          simp_all [Graph.pages, Field.isRelation]
        split at h
        · rename_i hlist
          cases h
          exact ⟨rfl, by rw [hpages, hlist]; rfl⟩
        · rename_i hlist
          cases h
          rw [Bool.not_eq_true] at hlist
          exact ⟨rfl, by rw [hpages, hlist]; exact .field hname (bare_identity hsystem)⟩

end Fields

section Items

variable {g : Graph} {o : ItemOptions} {t : TypeDef} {items : List Selection}
  (h : itemSelections g o t = .ok items)
include h

theorem shows_of_itemSelections {names : String → Prop}
    (hsystem : ∀ name ∈ systemFields, names name) (hg : g.FieldsNamed names)
    (ht : t.FieldsNamed names) : ∃ fields, items = identity ++ fields ∧
      List.Forall₂ (g.Shows names o) (selectedFields o t) fields := by
  obtain ⟨fields, hfields, h⟩ := bind_eq_ok_iff.1 h
  cases h
  have hnames : ∀ f ∈ selectedFields o t, names f.name := fun f hf => ht f (List.mem_filter.1 hf).1
  refine ⟨fields, rfl, List.Forall₂.imp (fun f s hfs => ?_)
    ((List.forall₂_and_left _ _).2 ⟨hnames, mapM_eq_ok_iff.1 hfields⟩)⟩
  exact shows_of_fieldSelection hsystem hg hfs.1 hfs.2

theorem passed_itemSelections :
    items.flatMap Selection.passed = ((selectedFields o t).filter g.pages).flatMap fun f =>
      (relationList o f).passed := by
  obtain ⟨fields, rfl, hshows⟩ := shows_of_itemSelections h
    (fun _ _ => trivial) (fun _ _ _ _ => trivial) fun _ _ => trivial
  have hidentity : identity.flatMap Selection.passed = [] := rfl
  rw [List.flatMap_append, hidentity, List.nil_append]
  clear h
  generalize selectedFields o t = fs at hshows
  induction hshows with
  | nil => rfl
  | @cons f s fs fields hfs _ ih =>
    have hshape := hfs.shape
    rw [List.flatMap_cons, List.filter_cons, ih]
    split at hshape
    · rename_i hpages
      rw [if_pos hpages, List.flatMap_cons, hshape]
    · rename_i hpages
      rw [if_neg hpages, hshape.passed_eq_nil, List.nil_append]

end Items

theorem arguments_relationList (o : ItemOptions) (f : Field) : (relationList o f).arguments =
    (if o.nestedFilters.contains f.name then [("filter", .variable f.name)] else []) ++
      [("first", .int o.nestedLimit)] ++
        (o.nestedCursors.get? f.name).toList.map fun c => ("after", .text c) := by
  rw [relationList, Selection.arguments]
  cases o.nestedCursors.get? f.name <;> rfl

theorem passed_relationList (o : ItemOptions) (f : Field) : (relationList o f).passed =
    (relationList o f).arguments.map fun a => ⟨f.name, a.1, a.2⟩ := by
  have hinside : Selection.passedAll (relationList o f).children = [] := by
    rw [Selection.passedAll_eq, relationList]
    cases o.nestedPageInfo <;> rfl
  rw [← List.append_nil (List.map _ _), ← hinside]
  rfl

/-! Requests for a single instance -/

namespace GetParams

variable (p : GetParams) (t : TypeDef)

def options : ItemOptions :=
  ⟨p.limitFields, p.nestedCursors, p.nestedFilters, p.nestedLimit, true⟩

def filtered : List Field :=
  (selectedFields p.options t).filter fun f => p.nestedFilters.contains f.name

theorem map_fst_filters : ((selectedFields p.options t).filterMap fun f =>
    (p.nestedFilters.get? f.name).map fun j => (f, j)).map Prod.fst = p.filtered t :=
  Keyed.map_fst_filterMap_get? p.nestedFilters Field.name _

def identifier : Sdl.Value :=
  .object [("space", .text p.space), ("externalId", .text p.externalId)]

end GetParams

namespace Graph

def shown (g : Graph) (p : GetParams) : List Field :=
  (g.type? p.typeName).toList.flatMap (selectedFields p.options)

theorem target_eq_ok_iff {g : Graph} {typeName : String} {t : TypeDef} :
    g.target typeName = .ok t ↔ g.type? typeName = some t := by
  unfold target
  split <;> simp_all

theorem checkNested_eq_ok_iff {t : TypeDef} {fieldName : String} :
    checkNested t fieldName = .ok () ↔
      ∃ f, t.field? fieldName = some f ∧ f.isRelation = true ∧ f.type.isList = true := by
  unfold checkNested
  split
  · split <;> simp_all
  · simp_all

structure Answers (g : Graph) (p : GetParams) (t : TypeDef) (items : List Selection)
    (q : Query) : Prop where
  type : g.type? p.typeName = some t
  nested : ∀ name ∈ p.nestedCursors.keys ++ p.nestedFilters.keys,
    ∃ f, t.field? name = some f ∧ f.isRelation = true ∧ f.type.isList = true
  selected : itemSelections g p.options t = .ok items
  operation : q.operation =
    ⟨OperationKind.get.operationName t.name,
      (p.filtered t).map fun f =>
        (f.name, .named (OperationKind.list.filterTypeName f.type.name) false),
      [.field (OperationKind.get.operationName t.name) [("instance", p.identifier)]
        [.node "items" items]]⟩
  values : ∃ es, q.values = .ofList es ∧ es.map Prod.fst = (p.filtered t).map Field.name

theorem exists_answers_of_getQuery {g : Graph} {p : GetParams} {q : Query}
    (h : g.getQuery p = .ok q) : ∃ t items, g.Answers p t items q := by
  obtain ⟨t, ht, h⟩ := bind_eq_ok_iff.1 h
  obtain ⟨hchecks, h⟩ := check_bind_eq_ok_iff.1 h
  obtain ⟨items, hitems, h⟩ := bind_eq_ok_iff.1 h
  cases h
  refine ⟨t, items, target_eq_ok_iff.1 ht, fun name hname =>
    checkNested_eq_ok_iff.1 (forM_eq_ok_iff.1 hchecks name hname), hitems, ?_, _, rfl, ?_⟩
  · rw [← p.map_fst_filters t, List.map_map]
    rfl
  · rw [← p.map_fst_filters t, List.map_map, List.map_map]
    rfl

end Graph

end SchemaGraph
