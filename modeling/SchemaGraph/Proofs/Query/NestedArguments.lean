import SchemaGraph.Proofs.Graph.Violations
import SchemaGraph.Proofs.Query.Selections

/-! What becomes of the filters and cursors that a request for a single instance has for the lists
of related instances. They are let in for every list of instances of another type, and take effect
where that list is shown in pages; of a list of values in place they change nothing. -/

namespace SchemaGraph

namespace Sdl

mutual

def Value.variableNames : Value → List String
  | .variable name => [name]
  | .list items => itemVariableNames items
  | .object entries => entryVariableNames entries
  | _ => []

def itemVariableNames : List Value → List String
  | [] => []
  | v :: vs => v.variableNames ++ itemVariableNames vs

def entryVariableNames : List (String × Value) → List String
  | [] => []
  | (_, v) :: es => v.variableNames ++ entryVariableNames es

end

end Sdl

namespace Operation

def declaredNames (o : Operation) : List String := o.declared.map Prod.fst

def usedNames (o : Operation) : List String :=
  (o.roots.flatMap Selection.passed).flatMap fun a => a.value.variableNames

end Operation

def Query.items (q : Query) : List Selection :=
  (q.operation.roots.flatMap Selection.children).flatMap fun s =>
    if s.name = "items" then s.children else []

def Query.Gives (q : Query) (fieldName argument : String) (value : Sdl.Value) : Prop :=
  ∃ s, (q.items.filter fun s => s.name = fieldName) = [s] ∧ (argument, value) ∈ s.arguments

/-- All filters and cursors of selected fields are in the document, and the variables that it
declares are the ones it uses and the ones that get a value. -/
structure GetParams.TakesEffect (p : GetParams) (g : Graph) (q : Query) : Prop where
  used : ∀ name, name ∈ q.operation.declaredNames ↔ name ∈ q.operation.usedNames
  valued : ∀ name, name ∈ q.operation.declaredNames ↔ name ∈ q.values.keys
  filters : ∀ f ∈ g.shown p, p.nestedFilters.contains f.name = true →
    q.Gives f.name "filter" (.variable f.name)
  cursors : ∀ f ∈ g.shown p, ∀ c, p.nestedCursors.get? f.name = some c →
    q.Gives f.name "after" (.text c)

def GetParams.narrows (p : GetParams) (f : Field) : Bool :=
  p.nestedFilters.contains f.name || p.nestedCursors.contains f.name

theorem filter_key_eq_singleton {α : Type} {key : α → String} {xs : List α}
    (h : (xs.map key).Nodup) {x : α} (hx : x ∈ xs) :
    (xs.filter fun y => key y = key x) = [x] := by
  induction xs with
  | nil => cases hx
  | cons y ys ih =>
    rw [List.map_cons, List.nodup_cons] at h
    rcases List.mem_cons.1 hx with rfl | hmem
    · have hnone : (ys.filter fun y => key y = key x) = [] := by
        rw [List.filter_eq_nil_iff]
        intro z hz hkey
        exact h.1 (of_decide_eq_true hkey ▸ List.mem_map_of_mem hz)
      rw [List.filter_cons_of_pos (by simp), hnone]
    · have hne : key y ≠ key x := fun hkey => h.1 (hkey ▸ List.mem_map_of_mem hmem)
      rw [List.filter_cons_of_neg (by simpa using hne), ih h.2 hmem]

theorem flatMap_ite_singleton {α β : Type} (p : α → Bool) (f : α → β) (xs : List α) :
    (xs.flatMap fun x => if p x then [f x] else []) = (xs.filter p).map f := by
  induction xs with
  | nil => rfl
  | cons x xs ih =>
    rw [List.flatMap_cons, List.filter_cons, ih]
    cases p x <;> rfl

namespace Graph

variable {g : Graph} {p : GetParams} {t : TypeDef} {items : List Selection} {q : Query}

theorem keys_eq_names (hrules : g.violations = []) {typeName : String}
    (htype : g.type? typeName = some t) : t.fields.All fun key f => key = f.name :=
  (((violations_eq_nil_iff g).1 hrules).get? htype).2.imp fun _ _ hf => hf.1

theorem nodup_field_names (hrules : g.violations = []) {typeName : String}
    (htype : g.type? typeName = some t) : (t.fields.values.map Field.name).Nodup := by
  rw [(keys_eq_names hrules htype).map_values]
  exact t.fields.nodup

theorem nodup_selected_names (hrules : g.violations = []) {typeName : String}
    (htype : g.type? typeName = some t) (o : ItemOptions) :
    ((selectedFields o t).map Field.name).Nodup :=
  (nodup_field_names hrules htype).sublist (List.filter_sublist.map _)

theorem not_mem_systemFields {o : ItemOptions} {f : Field} (hf : f ∈ selectedFields o t) :
    f.name ∉ systemFields := by
  intro hsystem
  have hadmits := (List.mem_filter.1 hf).2
  rw [ItemOptions.admits, List.contains_iff_mem.2 hsystem] at hadmits
  cases hadmits

theorem nodup_all_names (hrules : g.violations = []) {typeName : String}
    (htype : g.type? typeName = some t) (o : ItemOptions) :
    (systemFields ++ (selectedFields o t).map Field.name).Nodup := by
  refine List.nodup_append.2 ⟨by decide, nodup_selected_names hrules htype o, ?_⟩
  rintro name hname _ hname' rfl
  obtain ⟨f, hf, rfl⟩ := List.mem_map.1 hname'
  exact not_mem_systemFields hf hname

namespace Answers

variable (h : g.Answers p t items q)
include h

theorem shown_eq : g.shown p = selectedFields p.options t := by simp [shown, h.type]

theorem items_eq : q.items = items := by
  rw [Query.items, h.operation]
  simp [Selection.node, Selection.children, Selection.name]

theorem declaredNames_eq : q.operation.declaredNames = (p.filtered t).map Field.name := by
  rw [Operation.declaredNames, h.operation, List.map_map]
  rfl

theorem usedNames_eq : q.operation.usedNames =
    ((p.filtered t).filter g.pages).map Field.name := by
  have hpage : ∀ f : Field, ((relationList p.options f).passed.flatMap fun a =>
      a.value.variableNames) = if p.nestedFilters.contains f.name then [f.name] else [] := by
    intro f
    rw [passed_relationList, arguments_relationList, GetParams.options]
    cases p.nestedCursors.get? f.name
    all_goals
      split
      all_goals rfl
  rw [Operation.usedNames, h.operation, Selection.passed_root,
    passed_itemSelections h.selected, List.flatMap_nil, List.append_nil, List.flatMap_append,
    List.flatMap_assoc]
  simp only [hpage]
  rw [GetParams.filtered, List.filter_comm, ← flatMap_ite_singleton]
  rfl

section Rules

variable (hrules : g.violations = [])
include hrules

theorem keys_fields : t.fields.All fun key f => key = f.name := keys_eq_names hrules h.type

theorem nodup_names : ((selectedFields p.options t).map Field.name).Nodup :=
  nodup_selected_names hrules h.type _

theorem keys_values : q.values.keys = q.operation.declaredNames := by
  obtain ⟨es, hvalues, hkeys⟩ := h.values
  have hnodup : (es.map Prod.fst).Nodup :=
    hkeys ▸ (h.nodup_names hrules).sublist (List.filter_sublist.map _)
  rw [h.declaredNames_eq, hvalues, Keyed.keys, Keyed.entries_ofList es hnodup, hkeys]

theorem exists_selection {f : Field} (hf : f ∈ g.shown p) :
    ∃ s, g.Shows (fun _ => True) p.options f s ∧
      (q.items.filter fun s => s.name = f.name) = [s] := by
  obtain ⟨fields, hitems, hshows⟩ := shows_of_itemSelections h.selected
    (fun _ _ => trivial) (fun _ _ _ _ => trivial) fun _ _ => trivial
  rw [h.shown_eq] at hf
  obtain ⟨s, hs, hfs⟩ := exists_of_forall₂ hshows hf
  refine ⟨s, hfs, ?_⟩
  have hnames : (selectedFields p.options t).map Field.name = fields.map Selection.name := by
    rw [← List.forall₂_eq_eq_eq, List.forall₂_map_left_iff, List.forall₂_map_right_iff]
    exact hshows.imp fun f s hfs => hfs.name.symm
  have hfixed : identity.map Selection.name = systemFields := rfl
  have hnodup : (q.items.map Selection.name).Nodup := by
    rw [h.items_eq, hitems, List.map_append, hfixed, ← hnames]
    exact nodup_all_names hrules h.type _
  have hmem : s ∈ q.items := by
    rw [h.items_eq, hitems]
    exact List.mem_append_right _ hs
  rw [← hfs.name]
  exact filter_key_eq_singleton hnodup hmem

theorem pages_of_narrows {f : Field} (hf : f ∈ g.shown p) (hnarrows : p.narrows f = true) :
    g.pages f = (g.inlineTarget? f).isNone := by
  rw [h.shown_eq] at hf
  have hmem := (List.mem_filter.1 hf).1
  have hkey : f.name ∈ p.nestedCursors.keys ++ p.nestedFilters.keys := by
    rw [GetParams.narrows, Bool.or_eq_true, Keyed.contains_iff_mem_keys,
      Keyed.contains_iff_mem_keys] at hnarrows
    exact List.mem_append.2 hnarrows.symm
  obtain ⟨f', hf', hrelation, hlist⟩ := h.nested f.name hkey
  have hfield : t.field? f.name = some f := (h.keys_fields hrules).get?_of_mem_values hmem
  obtain rfl : f = f' := Option.some.inj (hfield.symm.trans hf')
  rw [pages, hrelation, hlist, Bool.true_and, Bool.true_and]

theorem gives_iff {f : Field} (hf : f ∈ g.shown p) {argument : String} {value : Sdl.Value} :
    q.Gives f.name argument value ↔
      g.pages f = true ∧ (argument, value) ∈ (relationList p.options f).arguments := by
  obtain ⟨s, hfs, hown⟩ := h.exists_selection hrules hf
  have hgives : q.Gives f.name argument value ↔ (argument, value) ∈ s.arguments := by
    rw [Query.Gives, hown]
    simp
  have hshape := hfs.shape
  rw [hgives]
  split at hshape
  · rename_i hpages
    rw [hshape, and_iff_right hpages]
  · rename_i hpages
    have hnone : s.arguments = [] := by
      cases hshape
      rfl
    rw [hnone]
    simp [hpages]

end Rules

end Answers

theorem mem_arguments_filter {o : ItemOptions} {f : Field} :
    ("filter", .variable f.name) ∈ (relationList o f).arguments ↔
      o.nestedFilters.contains f.name = true := by
  rw [arguments_relationList]
  split <;> simp_all

theorem mem_arguments_after {o : ItemOptions} {f : Field} {c : String} :
    ("after", .text c) ∈ (relationList o f).arguments ↔ o.nestedCursors.get? f.name = some c := by
  rw [arguments_relationList]
  split <;> simp

/-- Filters and cursors take effect exactly if none of the fields that they are for leads to a type
whose values are in place. -/
theorem takesEffect_iff (hrules : g.violations = []) (hquery : g.getQuery p = .ok q) :
    p.TakesEffect g q ↔ ∀ f ∈ g.shown p, p.narrows f = true → g.inlineTarget? f = none := by
  obtain ⟨t, items, h⟩ := exists_answers_of_getQuery hquery
  constructor
  · intro heffect f hf hnarrows
    have hpages := h.pages_of_narrows hrules hf hnarrows
    have hgives : g.pages f = true := by
      rw [GetParams.narrows, Bool.or_eq_true] at hnarrows
      rcases hnarrows with hfilter | hcursor
      · exact ((h.gives_iff hrules hf).1 (heffect.filters f hf hfilter)).1
      · obtain ⟨c, hc⟩ := Option.isSome_iff_exists.1 hcursor
        exact ((h.gives_iff hrules hf).1 (heffect.cursors f hf c hc)).1
    rw [hpages, Option.isNone_iff_eq_none] at hgives
    exact hgives
  · intro hnone
    have hpages : ∀ f ∈ g.shown p, p.narrows f = true → g.pages f = true := by
      intro f hf hnarrows
      rw [h.pages_of_narrows hrules hf hnarrows, hnone f hf hnarrows]
      rfl
    have hfilter : ∀ f : Field, p.nestedFilters.contains f.name = true → p.narrows f = true :=
      fun f hf => by rw [GetParams.narrows, hf, Bool.true_or]
    have hcursor : ∀ (f : Field) (c : String), p.nestedCursors.get? f.name = some c →
        p.narrows f = true :=
      fun f c hc => by rw [GetParams.narrows, Keyed.contains, Keyed.contains, hc]; simp
    have hall : (p.filtered t).filter g.pages = p.filtered t := by
      refine List.filter_eq_self.2 fun f hf => ?_
      obtain ⟨hmem, hcontains⟩ := List.mem_filter.1 hf
      exact hpages f (h.shown_eq ▸ hmem) (hfilter f hcontains)
    refine ⟨fun name => ?_, fun name => ?_, fun f hf hcontains => ?_, fun f hf c hc => ?_⟩
    · rw [h.declaredNames_eq, h.usedNames_eq, hall]
    · rw [h.keys_values hrules]
    · exact (h.gives_iff hrules hf).2
        ⟨hpages f hf (hfilter f hcontains), mem_arguments_filter.2 hcontains⟩
    · exact (h.gives_iff hrules hf).2 ⟨hpages f hf (hcursor f c hc), mem_arguments_after.2 hc⟩

theorem takesEffect_of_related_posts :
    let post := ((TypeDef.make "Post" .object).withField
      (.make "related" (.make "Post" true false))).withField
        (.make "replies" (.make "Post" true false))
    let g : Graph := ⟨Keyed.ofList [("Post", post)]⟩
    let p : GetParams := ⟨"first", none, Keyed.ofList [("related", "next")],
      Keyed.ofList [("related", .null)], 2, "blog", "Post"⟩
    ∃ q, g.violations = [] ∧ g.getQuery p = .ok q ∧ p.TakesEffect g q := by
  intro post g p
  have hrules : g.violations = [] := by decide +kernel
  have htargets : ∀ f ∈ g.shown p, p.narrows f = true → g.inlineTarget? f = none := by
    decide +kernel
  have hname : (g.getQuery p).toOption.map Query.operationName = some "getPostById" := by
    decide +kernel
  obtain ⟨q, hquery, -⟩ := exists_eq_ok_of_map hname
  exact ⟨q, hrules, hquery, (takesEffect_iff hrules hquery).2 htargets⟩

/-- The variable for a list of values in place is declared, but nothing uses it. -/
theorem not_takesEffect_of_inline_tags :
    let tag := ((TypeDef.make "Tag" .object).withDirective (.named "inline" ∅)).withField
      (.make "name" (.make "String" false false))
    let post := (TypeDef.make "Post" .object).withField (.make "tags" (.make "Tag" true false))
    let g : Graph := ⟨Keyed.ofList [("Tag", tag), ("Post", post)]⟩
    let p : GetParams := ⟨"first", none, ∅, Keyed.ofList [("tags", .null)], 2, "blog", "Post"⟩
    ∃ q, g.violations = [] ∧ g.getQuery p = .ok q ∧ ¬p.TakesEffect g q := by
  intro tag post g p
  have hrules : g.violations = [] := by decide +kernel
  have hnames : (g.getQuery p).toOption.map (fun q =>
      (q.operation.declaredNames, q.operation.usedNames)) = some (["tags"], []) := by
    decide +kernel
  obtain ⟨q, hquery, hpair⟩ := exists_eq_ok_of_map hnames
  obtain ⟨hdeclared, hused⟩ := Prod.mk.inj hpair
  refine ⟨q, hrules, hquery, fun heffect => ?_⟩
  have hmem := (heffect.used "tags").1 (hdeclared ▸ List.mem_cons_self)
  rw [hused] at hmem
  cases hmem

end Graph

end SchemaGraph
