import SchemaGraph.Proofs.Graph.Renaming
import SchemaGraph.Proofs.Query.Answerable

/-! What a new name of a type does to queries. Fields that lead to the type lead to it under its
new name and are shown as before, because neither name means anything without the type; so the
name itself is all that changes, where it stands. -/

namespace SchemaGraph

section Names

variable {old new : String}

theorem OperationKind.filterTypeName_inj (kind : OperationKind) {a b : String}
    (h : kind.filterTypeName a = kind.filterTypeName b) : a = b := by
  have hcs := congrArg String.toList h
  cases kind <;> exact String.toList_inj.1 (by simpa [filterTypeName] using hcs)

theorem OperationKind.filterTypeName_renamed (kind : OperationKind) (name : String) :
    kind.filterTypeName (renamedName old new name) =
      renamedName (kind.filterTypeName old) (kind.filterTypeName new)
        (kind.filterTypeName name) := by
  by_cases hname : name = old
  · rw [hname, renamedName_self, renamedName_self]
  · rw [renamedName_of_ne hname, renamedName_of_ne fun heq => hname (kind.filterTypeName_inj heq)]

theorem selectedFields_renamed (o : ItemOptions) (t : TypeDef) :
    selectedFields o (t.renamed old new) =
      (selectedFields o t).map (Field.renamed old new) := by
  have hadmits : o.admits ∘ Field.renamed old new = o.admits := by
    funext f
    rw [Function.comp_apply, ItemOptions.admits, ItemOptions.admits, Field.name_renamed]
  rw [selectedFields, TypeDef.values_renamed, List.filter_map, hadmits]
  rfl

theorem mapM_map_congr {ε α β : Type} {f f' : α → Except ε β} {r : α → α} {xs : List α}
    (h : ∀ x ∈ xs, f' (r x) = f x) : (xs.map r).mapM f' = xs.mapM f := by
  induction xs with
  | nil => rfl
  | cons x xs ih =>
    rw [List.map_cons, List.mapM_cons, List.mapM_cons, h x List.mem_cons_self,
      ih fun y hy => h y (List.mem_cons_of_mem _ hy)]

end Names

/-! Selections -/

namespace Graph.Renames

variable {g : Graph} {old new : String} (h : g.Renames old new)
include h

theorem inlineTarget?_renamed {f : Field} (hf : g.Understands f) :
    (g.renamed old new).inlineTarget? (f.renamed old new) =
      (g.inlineTarget? f).map (TypeDef.renamed old new) := by
  unfold inlineTarget?
  rw [Field.typeName_renamed, h.type?_renamed (h.typeName_ne_new hf), Option.filter_map]
  rfl

variable {expand expand' : Field → TypeDef → Except QueryError (Option Selection)}
  (hexpand : ∀ f t, g.inlineTarget? f = some t →
    expand' (f.renamed old new) (t.renamed old new) = expand f t)

include hexpand in
theorem inlineField_renamed {f : Field} (hf : g.Understands f) :
    inlineField (g.renamed old new) expand' (f.renamed old new) = inlineField g expand f := by
  obtain ⟨hcustom, hresource⟩ := h.known_renamed hf
  unfold inlineField resourceSelection
  rw [hcustom, hresource, Field.name_renamed, h.inlineTarget?_renamed hf]
  cases ht : g.inlineTarget? f with
  | none => rfl
  | some t => simp only [Option.map_some, hexpand f t ht]

include hexpand in
theorem inlineWith_renamed (f : Field) {a : Field} {t : TypeDef}
    (ht : g.inlineTarget? a = some t) :
    inlineWith (g.renamed old new) expand' (f.renamed old new) (t.renamed old new) =
      inlineWith g expand f t := by
  obtain ⟨htype, -⟩ := Option.filter_eq_some_iff.1 ht
  have hfields := h.understands htype
  have hnone : ∀ {fields : List Field},
      (∀ f ∈ fields, (f.isRelation && f.type.isList) = false) →
        (fields.find? fun f => f.isRelation && f.type.isList) = none := by
    intro fields hfields
    rw [List.find?_eq_none]
    intro f hf
    rw [hfields f hf]
    exact Bool.false_ne_true
  have hembeddable := embeddable_inlineTarget h.rules ht
  have hembeddable' : ∀ f ∈ t.fields.values.map (Field.renamed old new),
      (f.isRelation && f.type.isList) = false := by
    intro f hf
    obtain ⟨b, hb, rfl⟩ := List.mem_map.1 hf
    rw [h.isRelation_renamed (hfields b hb), Field.isList_renamed]
    exact hembeddable b hb
  unfold inlineWith
  rw [TypeDef.values_renamed, hnone hembeddable, hnone hembeddable', Field.name_renamed,
    mapM_map_congr fun b hb => h.inlineField_renamed hexpand (hfields b hb)]

omit hexpand in
theorem inlineSelection_renamed (levels : Nat) (f : Field) {a : Field} {t : TypeDef}
    (ht : g.inlineTarget? a = some t) :
    inlineSelection (g.renamed old new) levels (f.renamed old new) (t.renamed old new) =
      inlineSelection g levels f t := by
  induction levels generalizing f a t with
  | zero => exact h.inlineWith_renamed (fun _ _ _ => rfl) f ht
  | succ levels ih =>
    refine h.inlineWith_renamed (fun b u hu => ?_) f ht
    rw [ih b hu]

theorem fieldSelection_renamed (o : ItemOptions) {f : Field} (hf : g.Understands f) :
    fieldSelection (g.renamed old new) o (f.renamed old new) = fieldSelection g o f := by
  obtain ⟨hcustom, hresource⟩ := h.known_renamed hf
  unfold fieldSelection resourceSelection relationList
  rw [hcustom, hresource, Field.name_renamed, Field.isList_renamed, h.inlineTarget?_renamed hf]
  cases ht : g.inlineTarget? f with
  | none => rfl
  | some t => simp only [Option.map_some, h.inlineSelection_renamed 1 f ht]

theorem itemSelections_renamed (o : ItemOptions) {typeName : String} {t : TypeDef}
    (ht : g.type? typeName = some t) :
    itemSelections (g.renamed old new) o (t.renamed old new) = itemSelections g o t := by
  have hfields : ∀ f ∈ selectedFields o t,
      fieldSelection (g.renamed old new) o (f.renamed old new) = fieldSelection g o f :=
    fun f hf => h.fieldSelection_renamed o (h.understands ht f (List.mem_filter.1 hf).1)
  rw [itemSelections, selectedFields_renamed, mapM_map_congr hfields]
  rfl

end Graph.Renames

/-! Queries -/

def Sdl.TypeRef.renamed (old new : String) : TypeRef → TypeRef
  | .named name nonNull => .named (renamedName old new name) nonNull
  | .list item nonNull => .list (item.renamed old new) nonNull

def Selection.renamed (old new : String) : Selection → Selection
  | .field name as cs => .field (renamedName old new name) as cs

namespace Query

def redeclared (old new : String) (q : Query) : Query :=
  { q with operation := { q.operation with
      declared := q.operation.declared.map fun v => (v.1, v.2.renamed old new) } }

def retitled (old new : String) (q : Query) : Query :=
  { q with operation := { q.operation with
      name := renamedName old new q.operation.name
      roots := q.operation.roots.map (Selection.renamed old new) } }

def readdressed (kind : OperationKind) (old new : String) (q : Query) : Query :=
  (q.retitled (kind.operationName old) (kind.operationName new)).redeclared
    (kind.filterTypeName old) (kind.filterTypeName new)

end Query

/-! The fields that are given a filter -/

section Filters

variable {old new : String}

theorem filtered_renamed (o : ItemOptions) (t : TypeDef) (filters : Keyed Json) :
    ((selectedFields o (t.renamed old new)).filterMap fun f =>
      (filters.get? f.name).map fun j => (f, j)) =
      ((selectedFields o t).filterMap fun f => (filters.get? f.name).map fun j => (f, j)).map
        fun e => (e.1.renamed old new, e.2) := by
  rw [selectedFields_renamed, List.filterMap_map, List.map_filterMap]
  congr 1
  funext f
  rw [Function.comp_apply, Field.name_renamed, Option.map_map]
  rfl

theorem declared_renamed (es : List (Field × Json)) :
    (es.map fun e => (e.1.renamed old new, e.2)).map (fun e => (e.1.name,
      Sdl.TypeRef.named (OperationKind.list.filterTypeName e.1.type.name) false)) =
    (es.map fun e => (e.1.name,
      Sdl.TypeRef.named (OperationKind.list.filterTypeName e.1.type.name) false)).map
        fun v => (v.1, v.2.renamed (OperationKind.list.filterTypeName old)
          (OperationKind.list.filterTypeName new)) := by
  rw [List.map_map, List.map_map]
  refine List.map_congr_left fun e _ => ?_
  simp only [Function.comp_apply, Field.name_renamed, Field.typeName_renamed,
    OperationKind.filterTypeName_renamed, Sdl.TypeRef.renamed]

theorem given_renamed (es : List (Field × Json)) :
    (es.map fun e => (e.1.renamed old new, e.2)).map (fun e => (e.1.name, e.2)) =
      es.map fun e => (e.1.name, e.2) := by
  rw [List.map_map]
  refine List.map_congr_left fun e _ => ?_
  simp only [Function.comp_apply, Field.name_renamed]

end Filters

/-- Requests for other types are answered as before, but for the name of the type where the types
of filters are declared; requests for the type itself have to name it anew. -/
structure Graph.AnswersAlike (g g' : Graph) (old new : String) : Prop where
  list : ∀ p : ListParams, p.typeName ∈ g.typeNames → p.typeName ≠ old →
    g'.listQuery p = g.listQuery p
  search : ∀ p : SearchParams, p.typeName ∈ g.typeNames → p.typeName ≠ old →
    g'.searchQuery p = g.searchQuery p
  get : ∀ p : GetParams, p.typeName ∈ g.typeNames → p.typeName ≠ old →
    g'.getQuery p = (g.getQuery p).map
      (Query.redeclared (OperationKind.list.filterTypeName old)
        (OperationKind.list.filterTypeName new))
  list_renamed : ∀ p : ListParams, p.typeName = old →
    g'.listQuery { p with typeName := new } =
      (g.listQuery p).map (Query.readdressed .list old new)
  search_renamed : ∀ p : SearchParams, p.typeName = old →
    g'.searchQuery { p with typeName := new } =
      (g.searchQuery p).map (Query.readdressed .search old new)

namespace Graph.Renames

variable {g : Graph} {old new : String} (h : g.Renames old new)
include h

theorem target_renamed {typeName : String} (htype : typeName ∈ g.typeNames) :
    ∃ t, g.type? typeName = some t ∧ t.name = typeName ∧
      (t.renamed old new).name = renamedName old new typeName ∧ g.target typeName = .ok t ∧
        (g.renamed old new).target (renamedName old new typeName) = .ok (t.renamed old new) := by
  obtain ⟨t, ht⟩ := mem_typeNames_iff.1 htype
  have hname : typeName = t.name := (type_keys_of_rules h.rules).get? ht
  refine ⟨t, ht, hname.symm, ?_, target_eq_ok_iff.2 ht, ?_⟩
  · rw [hname]
    rfl
  · rw [target_eq_ok_iff, h.type?_renamed (h.ne_new_of_mem htype), ht]
    rfl

theorem listQuery_renamed {p : ListParams} (htype : p.typeName ∈ g.typeNames)
    (hne : p.typeName ≠ old) : (g.renamed old new).listQuery p = g.listQuery p := by
  obtain ⟨t, ht, hname, hname', hbefore, hafter⟩ := h.target_renamed htype
  rw [renamedName_of_ne hne] at hname' hafter
  unfold listQuery filterVariable
  rw [hbefore, hafter]
  simp only [bind, Except.bind, h.itemSelections_renamed _ ht, hname, hname']

theorem searchQuery_renamed {p : SearchParams} (htype : p.typeName ∈ g.typeNames)
    (hne : p.typeName ≠ old) : (g.renamed old new).searchQuery p = g.searchQuery p := by
  obtain ⟨t, ht, hname, hname', hbefore, hafter⟩ := h.target_renamed htype
  rw [renamedName_of_ne hne] at hname' hafter
  unfold searchQuery filterVariable
  rw [hbefore, hafter]
  simp only [bind, Except.bind, h.itemSelections_renamed _ ht, hname, hname']

theorem checkNested_renamed {typeName : String} {t : TypeDef} (ht : g.type? typeName = some t)
    (hname : (t.renamed old new).name = t.name) :
    checkNested (t.renamed old new) = checkNested t := by
  funext fieldName
  unfold checkNested
  rw [TypeDef.field?_renamed, hname]
  cases hf : t.field? fieldName with
  | none => rfl
  | some f =>
    have hmem : f ∈ t.fields.values := List.mem_map_of_mem (Keyed.mem_entries_of_get? hf)
    simp only [Option.map_some, h.isRelation_renamed (h.understands ht f hmem),
      Field.isList_renamed]

theorem getQuery_renamed {p : GetParams} (htype : p.typeName ∈ g.typeNames)
    (hne : p.typeName ≠ old) : (g.renamed old new).getQuery p = (g.getQuery p).map
      (Query.redeclared (OperationKind.list.filterTypeName old)
        (OperationKind.list.filterTypeName new)) := by
  obtain ⟨t, ht, hname, hname', hbefore, hafter⟩ := h.target_renamed htype
  rw [renamedName_of_ne hne, ← hname] at hname'
  rw [renamedName_of_ne hne] at hafter
  unfold getQuery
  rw [hbefore, hafter]
  simp only [bind, Except.bind, h.checkNested_renamed ht hname', ← GetParams.options.eq_1,
    h.itemSelections_renamed _ ht, hname', filtered_renamed, declared_renamed, given_renamed]
  -- The same checks and the same selections are made; past both, only the declarations differ.
  cases (p.nestedCursors.keys ++ p.nestedFilters.keys).forM (checkNested t) with
  | error e => rfl
  | ok _ =>
    cases itemSelections g p.options t with
    | error e => rfl
    | ok items => rfl

theorem listQuery_renamed_self {p : ListParams} (hold : p.typeName = old)
    (htype : old ∈ g.typeNames) :
    (g.renamed old new).listQuery { p with typeName := new } =
      (g.listQuery p).map (Query.readdressed .list old new) := by
  obtain ⟨t, ht, hname, hname', hbefore, hafter⟩ := h.target_renamed htype
  rw [renamedName_self] at hname' hafter
  unfold listQuery filterVariable
  rw [hold, hbefore, hafter]
  simp only [bind, Except.bind, h.itemSelections_renamed _ ht, hname', hname]
  cases itemSelections g (plainOptions p.limitFields p.nestedLimit) t with
  | error e => rfl
  | ok items =>
    simp [pure, Except.pure, Except.map, Query.readdressed, Query.redeclared, Query.retitled,
      Selection.renamed, Sdl.TypeRef.renamed, renamedName_self]

theorem searchQuery_renamed_self {p : SearchParams} (hold : p.typeName = old)
    (htype : old ∈ g.typeNames) :
    (g.renamed old new).searchQuery { p with typeName := new } =
      (g.searchQuery p).map (Query.readdressed .search old new) := by
  obtain ⟨t, ht, hname, hname', hbefore, hafter⟩ := h.target_renamed htype
  rw [renamedName_self] at hname' hafter
  -- No filter is of the type of the other two variables.
  have hlong : ∀ name : String, name.length < 7 →
      name ≠ OperationKind.search.filterTypeName old := by
    rintro name hlt rfl
    have hsearch : "_Search".length = 7 := by rfl
    rw [OperationKind.filterTypeName, String.length_append, String.length_append, hsearch] at hlt
    omega
  unfold searchQuery filterVariable
  rw [hold, hbefore, hafter]
  simp only [bind, Except.bind, h.itemSelections_renamed _ ht, hname', hname]
  cases itemSelections g (plainOptions p.limitFields p.nestedLimit) t with
  | error e => rfl
  | ok items =>
    simp [pure, Except.pure, Except.map, Query.readdressed, Query.redeclared, Query.retitled,
      Selection.renamed, Sdl.TypeRef.renamed, renamedName_self,
      renamedName_of_ne (hlong "Int" (by decide)), renamedName_of_ne (hlong "String" (by decide))]

theorem answersAlike (htype : old ∈ g.typeNames) :
    g.AnswersAlike (g.renamed old new) old new where
  list _ hname hne := h.listQuery_renamed hname hne
  search _ hname hne := h.searchQuery_renamed hname hne
  get _ hname hne := h.getQuery_renamed hname hne
  list_renamed _ hold := h.listQuery_renamed_self hold htype
  search_renamed _ hold := h.searchQuery_renamed_self hold htype

end Graph.Renames

namespace Graph

variable {views : List ViewVersion} {s : String} {g₀ g g' : Graph} {es : List Edit}

/-- A type that gets another name leaves the queries for other types as they are, whatever graph a
text and edits of it led to. -/
theorem answersAlike_of_renameType (hparse : parse views s = .ok g₀)
    (hes : ∀ e ∈ es, e.Built) (hrun : g₀.applyAll es = .ok g) {old new : String}
    (hold : Builtin.isFieldType old = false) (hne : old ≠ new)
    (hrename : g.renameType old new = .ok g') : g.AnswersAlike g' old new := by
  obtain ⟨hrules₀, hsettled₀⟩ := rules_and_settled_of_parse hparse
  have hfollows₀ : g₀.Follows .arbitrary :=
    KeyRule.follows_of_settled (fun _ => trivial) (fun _ _ => trivial) hsettled₀
  obtain ⟨hrules, hfollows⟩ := follows_applyAll hrules₀ hfollows₀ hes hrun
  obtain ⟨htype, ⟨hsame, -⟩ | ⟨-, hname, -, rfl⟩⟩ := renameType_eq_ok_iff.1 hrename
  · exact absurd hsame hne
  · obtain ⟨-, hfree, hfresh⟩ := (checkNewTypeName_eq_ok_iff ..).1 hname
    have hrenames : g.Renames old new :=
      { rules := hrules
        settled := hfollows.imp fun _ _ ht => ht.2.imp fun _ _ hf => hf.2
        old_unknown := hold
        new_unknown := (Bool.or_eq_false_iff.1 hfree).2
        fresh := hfresh }
    exact hrenames.answersAlike ((Keyed.contains_iff_mem_keys g.types old).1 htype)

/-- The type that gets another name is shown in place, and refers to itself. -/
theorem answersAlike_of_renamed_tag :
    let s := "type Post { tag: Tag related: [Post] } type Tag @inline { label: String parent: Tag }"
    let es : List Edit := [.addField "Post" "main" ⟨[], none, [], false, true, "Tag"⟩]
    ∃ g₀ g g' : Graph, parse [] s = .ok g₀ ∧ (∀ e ∈ es, e.Built) ∧ g₀.applyAll es = .ok g ∧
      Builtin.isFieldType "Tag" = false ∧ "Tag" ≠ "Label" ∧
        g.renameType "Tag" "Label" = .ok g' ∧ g.AnswersAlike g' "Tag" "Label" := by
  intro s es
  have hes : ∀ e ∈ es, e.Built := List.forall_mem_singleton.2 trivial
  have hread : (parse [] s).toOption.map typeNames = some ["Post", "Tag"] := by decide +kernel
  obtain ⟨g₀, hparse, -⟩ := exists_eq_ok_of_map hread
  have hedits : ((parse [] s).toOption.bind fun g₀ => (g₀.applyAll es).toOption).map typeNames =
      some ["Post", "Tag"] := by decide +kernel
  rw [hparse, Except.toOption, Option.bind_some] at hedits
  obtain ⟨g, hrun, -⟩ := exists_eq_ok_of_map hedits
  have hnames : (((parse [] s).toOption.bind fun g₀ => (g₀.applyAll es).toOption).bind fun g =>
      (g.renameType "Tag" "Label").toOption).map typeNames = some ["Post", "Label"] := by
    decide +kernel
  rw [hparse, Except.toOption, Option.bind_some, hrun, Except.toOption, Option.bind_some] at hnames
  obtain ⟨g', hrename, -⟩ := exists_eq_ok_of_map hnames
  have hunknown : Builtin.isFieldType "Tag" = false := by decide
  have hne : "Tag" ≠ "Label" := by decide
  exact ⟨g₀, g, g', hparse, hes, hrun, hunknown, hne, hrename,
    answersAlike_of_renameType hparse hes hrun hunknown hne hrename⟩

end Graph

end SchemaGraph
