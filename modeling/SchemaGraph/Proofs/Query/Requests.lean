import Mathlib.Algebra.Group.Nat.Defs
import SchemaGraph.Proofs.Graph.RoundTrip
import SchemaGraph.Proofs.Graph.Violations
import SchemaGraph.Proofs.Query.Reading
import SchemaGraph.Proofs.Query.Selections

/-! What the document for a request says to whoever reads it: nothing in the names of the graph or
in the texts of the caller can make it another document. -/

namespace SchemaGraph

open Sdl

/-! Names put together -/

theorem Sdl.isName_append {cs ds : List Char} (hcs : isName cs = true)
    (hds : ds.all isNameChar = true) : isName (cs ++ ds) = true := by
  cases cs with
  | nil => cases hcs
  | cons c cs =>
    rw [isName, Bool.and_eq_true] at hcs
    rw [List.cons_append, isName, List.all_append, hcs.1, hcs.2, hds]
    rfl

abbrev IsNamed (name : String) : Prop := isName name.toList = true

theorem IsNamed.prefixed {before name : String} (hbefore : IsNamed before) (h : IsNamed name) :
    IsNamed (before ++ name) := by
  rw [IsNamed, String.toList_append]
  exact isName_append hbefore (all_isNameChar h)

theorem IsNamed.between {before name after : String} (hbefore : IsNamed before)
    (h : IsNamed name) (hafter : after.toList.all isNameChar = true) :
    IsNamed (before ++ name ++ after) := by
  rw [IsNamed, String.toList_append]
  exact isName_append (hbefore.prefixed h) hafter

section Names

variable {name : String} (h : IsNamed name)
include h

theorem OperationKind.isNamed_operationName (kind : OperationKind) :
    IsNamed (kind.operationName name) := by
  cases kind with
  | get => exact IsNamed.between (by decide) h (by decide)
  | list => exact IsNamed.prefixed (by decide) h
  | search => exact IsNamed.prefixed (by decide) h

theorem OperationKind.isNamed_filterTypeName (kind : OperationKind) :
    IsNamed (kind.filterTypeName name) := by
  cases kind
  all_goals exact IsNamed.between (by decide) h (by decide)

end Names

/-! Requests -/

inductive QueryRequest where
  | list (params : ListParams)
  | get (params : GetParams)
  | search (params : SearchParams)
  | aggregate (typeName : String)
  | rowCount (typeNames : List String)

/-- Limits have 32 bits, and nothing is asked about the order of a list. -/
def QueryRequest.Plain : QueryRequest → Prop
  | .list p => p.limit < 2 ^ 32 ∧ p.nestedLimit < 2 ^ 32 ∧ p.sort = none
  | .get p => p.nestedLimit < 2 ^ 32
  | .search p => p.nestedLimit < 2 ^ 32
  | _ => True

namespace Graph

def Named (g : Graph) : Prop :=
  g.types.All fun _ t => IsNamed t.name ∧ t.FieldsNamed IsNamed

def query (g : Graph) : QueryRequest → Except QueryError Query
  | .list p => g.listQuery p
  | .get p => g.getQuery p
  | .search p => g.searchQuery p
  | .aggregate typeName => g.aggregateQuery typeName
  | .rowCount typeNames => g.rowCountQuery typeNames

def declared (g : Graph) : QueryRequest → List Executable.VariableDeclaration
  | .list p => [⟨"filter", .named ("_List" ++ p.typeName ++ "Filter") false, none, []⟩]
  | .get p => ((g.shown p).filter fun f => p.nestedFilters.contains f.name).map fun f =>
      ⟨f.name, .named ("_List" ++ f.type.name ++ "Filter") false, none, []⟩
  | .search p =>
    [⟨"first", .named "Int" false, none, []⟩, ⟨"query", .named "String" true, none, []⟩,
      ⟨"filter", .named ("_Search" ++ p.typeName ++ "Filter") false, none, []⟩]
  | .aggregate typeName =>
    [⟨"filter", .named ("_Search" ++ typeName ++ "Filter") false, none, []⟩]
  | .rowCount _ => []

def texts (g : Graph) : QueryRequest → List Passed
  | .list p => p.cursor.toList.map fun c => ⟨"list" ++ p.typeName, "after", .text c⟩
  | .get p =>
    ⟨"get" ++ p.typeName ++ "ById", "instance",
        .object [("externalId", .text p.externalId), ("space", .text p.space)]⟩ ::
      ((g.shown p).filter g.pages).flatMap fun f =>
        (p.nestedCursors.get? f.name).toList.map fun c => ⟨f.name, "after", .text c⟩
  | _ => []

end Graph

def Passed.isText (a : Passed) : Bool := a.argument = "after" || a.argument = "instance"

def Passed.arranged (a : Passed) : Passed := { a with value := a.value.arranged }

mutual

def Executable.Node.passed : Executable.Node → List Passed
  | .field _ name as _ ns => as.map (fun a => ⟨name, a.1, a.2⟩) ++ Executable.Node.passedAll ns
  | .spread _ _ => []
  | .inline _ _ ns => Executable.Node.passedAll ns

def Executable.Node.passedAll : List Executable.Node → List Passed
  | [] => []
  | n :: ns => n.passed ++ Executable.Node.passedAll ns

end

namespace Selection

mutual

theorem passed_toNode : ∀ s : Selection, s.toNode.passed = s.passed.map Passed.arranged
  | .field name as cs => by
    rw [toNode, Executable.Node.passed, passed, passedAll_toNodes cs, List.map_append,
      List.map_map, List.map_map]
    rfl

theorem passedAll_toNodes : ∀ cs : List Selection,
    Executable.Node.passedAll (toNodes cs) = (passedAll cs).map Passed.arranged
  | [] => rfl
  | c :: cs => by
    rw [toNodes, Executable.Node.passedAll, passedAll, passed_toNode c, passedAll_toNodes cs,
      List.map_append]

end

end Selection

/-! What is selected can be read back. -/

theorem isNamed_systemFields : ∀ name ∈ systemFields, IsNamed name := by decide

theorem given_limit {n : Nat} (h : n < 2 ^ 32) : (Value.int n).Given := by
  refine .regular (.int ?_)
  simp only [fitsInt64, Bool.and_eq_true, decide_eq_true_eq]
  omega

theorem given_variable {name : String} (h : IsNamed name) : (Value.variable name).Given :=
  .regular (.var rfl h)

theorem given_sortValue {s : SortOrder} (h : IsNamed s.fieldName) :
    (Graph.sortValue s).Given := by
  refine .object (List.forall_mem_singleton.2 ⟨h, ?_⟩)
  cases s.direction
  · exact .enum (by decide) rfl
  · exact .enum (by decide) rfl

namespace Selection

theorem Bare.regular {s : Selection} (h : s.Bare IsNamed) : s.Regular := by
  induction h with
  | field hname _ ih => exact .field hname (fun _ ha => absurd ha List.not_mem_nil) ih

theorem regular_node {name : String} {cs : List Selection} (hname : IsNamed name)
    (h : ∀ c ∈ cs, c.Regular) : (node name cs).Regular :=
  .field hname (fun _ ha => absurd ha List.not_mem_nil) h

end Selection

theorem regular_identity : ∀ c ∈ identity, c.Regular := fun c hc =>
  (bare_identity isNamed_systemFields c hc).regular

theorem regular_pageInfo : pageInfo.Regular :=
  Selection.regular_node (by decide) fun c hc =>
    (Selection.bare_leaves (by decide) c hc).regular

section Items

variable {g : Graph} {o : ItemOptions}

theorem regular_relationList (hlimit : o.nestedLimit < 2 ^ 32) {f : Field}
    (hname : IsNamed f.name) : (relationList o f).Regular := by
  have hfilter : ∀ a ∈ (if o.nestedFilters.contains f.name then
      [("filter", Value.variable f.name)] else []), IsNamed a.1 ∧ a.2.Given := by
    split
    · exact List.forall_mem_singleton.2
        ⟨(by decide : IsNamed "filter"), given_variable hname⟩
    · exact fun _ ha => absurd ha List.not_mem_nil
  have hfirst : ∀ a ∈ [("first", Value.int o.nestedLimit)], IsNamed a.1 ∧ a.2.Given :=
    List.forall_mem_singleton.2 ⟨(by decide : IsNamed "first"), given_limit hlimit⟩
  have hafter : ∀ a ∈ (o.nestedCursors.get? f.name).toList.map fun c => ("after", Value.text c),
      IsNamed a.1 ∧ a.2.Given :=
    List.forall_mem_map.2 fun c _ => ⟨(by decide : IsNamed "after"), .regular (.text c)⟩
  have harguments : ∀ a ∈ (relationList o f).arguments, IsNamed a.1 ∧ a.2.Given := by
    rw [arguments_relationList]
    exact List.forall_mem_append.2 ⟨List.forall_mem_append.2 ⟨hfilter, hfirst⟩, hafter⟩
  refine .field hname harguments ?_
  refine List.forall_mem_cons.2 ⟨Selection.regular_node (by decide) regular_identity, ?_⟩
  cases o.nestedPageInfo with
  | true => exact List.forall_mem_singleton.2 regular_pageInfo
  | false => exact fun _ hc => absurd hc List.not_mem_nil

variable {t : TypeDef} {items : List Selection} (h : itemSelections g o t = .ok items)
include h

theorem regular_items (hlimit : o.nestedLimit < 2 ^ 32) (hg : g.FieldsNamed IsNamed)
    (ht : t.FieldsNamed IsNamed) : (Selection.node "items" items).Regular := by
  obtain ⟨fields, rfl, hshows⟩ := shows_of_itemSelections h isNamed_systemFields hg ht
  refine Selection.regular_node (by decide) (List.forall_mem_append.2 ⟨regular_identity, ?_⟩)
  refine forall_mem_of_forall₂ hshows fun f hf s hfs => ?_
  have hname := ht f (List.mem_filter.1 hf).1
  have hshape := hfs.shape
  split at hshape
  · exact hshape ▸ regular_relationList hlimit hname
  · exact hshape.regular

theorem texts_items : (items.flatMap Selection.passed).filter Passed.isText =
    ((selectedFields o t).filter g.pages).flatMap fun f =>
      (o.nestedCursors.get? f.name).toList.map fun c => ⟨f.name, "after", .text c⟩ := by
  rw [passed_itemSelections h, List.filter_flatMap]
  congr 1
  funext f
  rw [passed_relationList, arguments_relationList]
  cases o.nestedCursors.get? f.name
  all_goals
    split
    all_goals rfl

theorem texts_items_plain (hcursors : o.nestedCursors = ∅) :
    (items.flatMap Selection.passed).filter Passed.isText = [] := by
  rw [texts_items h, hcursors]
  exact List.flatMap_eq_nil_iff.2 fun _ _ => rfl

end Items

theorem texts_root {name : String} {as : List (String × Value)} {items rest : List Selection}
    (hrest : rest.flatMap Selection.passed = []) :
    ([Selection.field name as (.node "items" items :: rest)].flatMap Selection.passed).filter
      Passed.isText = (as.map fun a => ⟨name, a.1, a.2⟩).filter Passed.isText ++
        (items.flatMap Selection.passed).filter Passed.isText := by
  rw [Selection.passed_root, hrest, List.append_nil, List.filter_append]

/-! Operations for requests -/

theorem Operation.regular_single {name : String} {vs : List (String × TypeRef)}
    {as : List (String × Value)} {cs : List Selection} (hname : IsNamed name)
    (hvariables : ∀ v ∈ vs, IsNamed v.1 ∧ v.2.Regular)
    (harguments : ∀ a ∈ as, IsNamed a.1 ∧ a.2.Given) (hchildren : ∀ c ∈ cs, c.Regular) :
    (Operation.mk name vs [.field name as cs]).Regular :=
  ⟨hname, hvariables, List.cons_ne_nil _ _,
    List.forall_mem_singleton.2 (.field hname harguments hchildren)⟩

theorem Graph.regular_countSelection : ∀ c ∈ countSelection, c.Regular := by
  have hcount : ∀ c ∈ [Selection.node "count" (Selection.leaves ["externalId"])], c.Regular :=
    List.forall_mem_singleton.2 (Selection.regular_node (by decide) fun c hc =>
      (Selection.bare_leaves (by decide) c hc).regular)
  exact List.forall_mem_singleton.2 (Selection.regular_node (by decide) hcount)

theorem Graph.isNamed_aggregateName {t : TypeDef} (h : IsNamed t.name) :
    IsNamed (aggregateName t) :=
  IsNamed.prefixed (by decide) h

namespace Graph

variable {g : Graph}

theorem Named.fields (h : g.Named) : g.FieldsNamed IsNamed := h.imp fun _ _ ht => ht.2

structure Answered (g : Graph) (r : QueryRequest) (o : Operation) : Prop where
  regular : o.Regular
  declared : o.declared.map Operation.declaration = g.declared r
  texts : ((o.roots.flatMap Selection.passed).filter Passed.isText).map Passed.arranged = g.texts r

section Rules

variable (hrules : g.violations = []) (hnamed : g.Named)
include hrules hnamed

theorem target_spec {typeName : String} {t : TypeDef} (h : g.type? typeName = some t) :
    typeName = t.name ∧ IsNamed t.name ∧ t.FieldsNamed IsNamed :=
  ⟨(type_keys_of_rules hrules).get? h, hnamed.get? h⟩

/-- A field to sort by is written as it is, so it has to be a name. -/
theorem regular_listQuery {p : ListParams} (hlimit : p.limit < 2 ^ 32)
    (hnested : p.nestedLimit < 2 ^ 32) (hsort : ∀ s ∈ p.sort, IsNamed s.fieldName) {q : Query}
    (h : g.listQuery p = .ok q) : q.operation.Regular := by
  obtain ⟨t, ht, h⟩ := bind_eq_ok_iff.1 h
  obtain ⟨items, hitems, h⟩ := bind_eq_ok_iff.1 h
  cases h
  obtain ⟨-, hname, hfields⟩ := target_spec hrules hnamed (target_eq_ok_iff.1 ht)
  refine Operation.regular_single (OperationKind.isNamed_operationName hname .list) ?_
    (List.forall_mem_append.2 ⟨List.forall_mem_append.2 ⟨?_, ?_⟩, ?_⟩) ?_
  · exact List.forall_mem_singleton.2
      ⟨(by decide : IsNamed "filter"), OperationKind.isNamed_filterTypeName hname .list⟩
  · exact List.forall_mem_cons.2 ⟨⟨(by decide : IsNamed "filter"), given_variable (by decide)⟩,
      List.forall_mem_singleton.2 ⟨(by decide : IsNamed "first"), given_limit hlimit⟩⟩
  · exact List.forall_mem_map.2 fun c _ => ⟨(by decide : IsNamed "after"), .regular (.text c)⟩
  · exact List.forall_mem_map.2 fun s hs =>
      ⟨(by decide : IsNamed "sort"), given_sortValue (hsort s (Option.mem_toList.1 hs))⟩
  · exact List.forall_mem_cons.2 ⟨regular_items hitems hnested hnamed.fields hfields,
      List.forall_mem_singleton.2 regular_pageInfo⟩

theorem answered_list {p : ListParams} (hp : (QueryRequest.list p).Plain) {q : Query}
    (h : g.listQuery p = .ok q) : g.Answered (.list p) q.operation := by
  obtain ⟨hlimit, hnested, hsort⟩ := hp
  have hnone : ∀ s ∈ p.sort, IsNamed s.fieldName := hsort ▸ fun _ hs => nomatch hs
  have hregular := regular_listQuery hrules hnamed hlimit hnested hnone h
  obtain ⟨t, ht, h⟩ := bind_eq_ok_iff.1 h
  obtain ⟨items, hitems, h⟩ := bind_eq_ok_iff.1 h
  cases h
  obtain ⟨hkey, -⟩ := target_spec hrules hnamed (target_eq_ok_iff.1 ht)
  refine ⟨hregular, ?_, ?_⟩
  · rw [declared, hkey]
    rfl
  · rw [hsort, Option.toList_none, List.map_nil, List.append_nil, texts_root rfl,
      texts_items_plain hitems rfl, texts, hkey]
    cases p.cursor <;> rfl

theorem answered_get {p : GetParams} (hp : (QueryRequest.get p).Plain) {q : Query}
    (h : g.getQuery p = .ok q) : g.Answered (.get p) q.operation := by
  obtain ⟨t, items, h⟩ := exists_answers_of_getQuery h
  obtain ⟨hkey, hname, hfields⟩ := target_spec hrules hnamed h.type
  have hshown : g.shown p = selectedFields p.options t := by simp [shown, h.type]
  have hvariables : ∀ f ∈ p.filtered t, IsNamed f.name ∧ IsNamed f.type.name := by
    intro f hf
    have hmem := (List.mem_filter.1 (List.mem_filter.1 hf).1).1
    have hresolves := ((violations_eq_nil_iff g).1 hrules).get? h.type
    refine ⟨hfields f hmem, isName_of_resolves hrules (hnamed.imp fun _ _ ht => ht.1) ?_⟩
    exact (hresolves.2.imp fun _ _ hf => hf.2.1).of_mem_values f hmem
  have hidentifier : p.identifier.Given := by
    refine .object (List.forall_mem_cons.2
      ⟨⟨?_, .text _⟩, List.forall_mem_singleton.2 ⟨?_, .text _⟩⟩)
    · exact (by decide : IsNamed "space")
    · exact (by decide : IsNamed "externalId")
  rw [h.operation]
  refine ⟨Operation.regular_single (OperationKind.isNamed_operationName hname .get) ?_ ?_
    (List.forall_mem_singleton.2 (regular_items h.selected hp hnamed.fields hfields)), ?_, ?_⟩
  · exact List.forall_mem_map.2 fun f hf =>
      ⟨(hvariables f hf).1, OperationKind.isNamed_filterTypeName (hvariables f hf).2 .list⟩
  · exact List.forall_mem_singleton.2 ⟨(by decide : IsNamed "instance"), hidentifier⟩
  · rw [declared, hshown, List.map_map]
    rfl
  · have harranged : p.identifier.arranged =
        .object [("externalId", .text p.externalId), ("space", .text p.space)] := by
      have hlt : "externalId" < "space" := by decide
      simp [GetParams.identifier, Value.arranged, Sorted.ofList, Sorted.insert, hlt]
    have hcursors : ∀ f : Field, ((p.nestedCursors.get? f.name).toList.map fun c =>
        (⟨f.name, "after", .text c⟩ : Passed)).map Passed.arranged =
          (p.nestedCursors.get? f.name).toList.map fun c => ⟨f.name, "after", .text c⟩ := by
      intro f
      rw [List.map_map]
      rfl
    rw [texts_root rfl, texts_items h.selected, texts, hshown, hkey, ← harranged,
      List.map_append, List.map_flatMap]
    simp only [GetParams.options, hcursors]
    rfl

theorem answered_search {p : SearchParams} (hp : (QueryRequest.search p).Plain) {q : Query}
    (h : g.searchQuery p = .ok q) : g.Answered (.search p) q.operation := by
  obtain ⟨t, ht, h⟩ := bind_eq_ok_iff.1 h
  obtain ⟨items, hitems, h⟩ := bind_eq_ok_iff.1 h
  cases h
  obtain ⟨hkey, hname, hfields⟩ := target_spec hrules hnamed (target_eq_ok_iff.1 ht)
  refine ⟨Operation.regular_single (OperationKind.isNamed_operationName hname .search) ?_ ?_
    (List.forall_mem_singleton.2 (regular_items hitems hp hnamed.fields hfields)), ?_, ?_⟩
  · exact List.forall_mem_cons.2 ⟨⟨(by decide : IsNamed "first"), (by decide : IsNamed "Int")⟩,
      List.forall_mem_cons.2 ⟨⟨(by decide : IsNamed "query"), (by decide : IsNamed "String")⟩,
        List.forall_mem_singleton.2
          ⟨(by decide : IsNamed "filter"), OperationKind.isNamed_filterTypeName hname .search⟩⟩⟩
  · have hvariables : ∀ name ∈ ["first", "query", "filter"], IsNamed name := by decide
    show ∀ a ∈ ["first", "query", "filter"].map (fun name => (name, Value.variable name)), _
    exact List.forall_mem_map.2 fun name h =>
      ⟨hvariables name h, given_variable (hvariables name h)⟩
  · rw [declared, hkey]
    rfl
  · rw [texts_root rfl, texts_items_plain hitems rfl]
    rfl

theorem answered_aggregate {typeName : String} {q : Query}
    (h : g.aggregateQuery typeName = .ok q) : g.Answered (.aggregate typeName) q.operation := by
  obtain ⟨t, ht, h⟩ := bind_eq_ok_iff.1 h
  cases h
  obtain ⟨hkey, hname, -⟩ := target_spec hrules hnamed (target_eq_ok_iff.1 ht)
  refine ⟨Operation.regular_single (isNamed_aggregateName hname) ?_ ?_ regular_countSelection,
    ?_, ?_⟩
  · exact List.forall_mem_singleton.2
      ⟨(by decide : IsNamed "filter"), OperationKind.isNamed_filterTypeName hname .search⟩
  · exact List.forall_mem_singleton.2
      ⟨(by decide : IsNamed "filter"), given_variable (by decide)⟩
  · rw [declared, hkey]
    rfl
  · rfl

theorem answered_rowCount {typeNames : List String} {q : Query}
    (h : g.rowCountQuery typeNames = .ok q) : g.Answered (.rowCount typeNames) q.operation := by
  unfold rowCountQuery at h
  split at h
  · cases h
  · rename_i hne
    obtain ⟨ts, hts, h⟩ := bind_eq_ok_iff.1 h
    cases h
    have hts := mapM_eq_ok_iff.1 hts
    have hnames : ∀ t ∈ ts, IsNamed (aggregateName t) := by
      refine forall_mem_of_forall₂ hts fun typeName _ t ht => ?_
      exact isNamed_aggregateName (target_spec hrules hnamed (target_eq_ok_iff.1 ht)).2.1
    refine ⟨⟨(by decide : IsNamed "Aggregate"), fun _ hv => absurd hv List.not_mem_nil, ?_, ?_⟩,
      rfl, ?_⟩
    · rintro hnil
      obtain rfl := List.map_eq_nil_iff.1 hnil
      obtain rfl := List.forall₂_nil_right_iff.1 hts
      exact hne rfl
    · exact List.forall_mem_map.2 fun t ht =>
        Selection.regular_node (hnames t ht) regular_countSelection
    · have hnone : (ts.map fun t => Selection.node (aggregateName t) countSelection).flatMap
          Selection.passed = [] := by
        rw [List.flatMap_map]
        exact List.flatMap_eq_nil_iff.2 fun _ _ => rfl
      rw [hnone]
      rfl

theorem answered_query {r : QueryRequest} (hr : r.Plain) {q : Query} (h : g.query r = .ok q) :
    g.Answered r q.operation := by
  cases r with
  | list p => exact answered_list hrules hnamed hr h
  | get p => exact answered_get hrules hnamed hr h
  | search p => exact answered_search hrules hnamed hr h
  | aggregate typeName => exact answered_aggregate hrules hnamed h
  | rowCount typeNames => exact answered_rowCount hrules hnamed h

/-- The document holds one operation, with the name, the variables and the selections it was built
from, and the texts of the caller are in it as they were given. -/
theorem query_reads_back {r : QueryRequest} (hr : r.Plain) {q : Query} (h : g.query r = .ok q) :
    ∃ nodes, nodes = q.operation.roots.map Selection.toNode ∧
      Executable.ofText q.text =
        .ok [.operation .query (some q.operationName) (g.declared r) [] nodes] ∧
      (nodes.flatMap Executable.Node.passed).filter Passed.isText = g.texts r := by
  have hanswered := answered_query hrules hnamed hr h
  have htext := hanswered.regular.ofText_render
  rw [Operation.definition, hanswered.declared] at htext
  refine ⟨_, rfl, htext, ?_⟩
  have hpassed : (q.operation.roots.map Selection.toNode).flatMap Executable.Node.passed =
      (q.operation.roots.flatMap Selection.passed).map Passed.arranged := by
    rw [List.flatMap_map, List.map_flatMap]
    simp only [Selection.passed_toNode]
  rw [hpassed, List.filter_map, ← hanswered.texts]
  rfl

end Rules

/-- A type with values in place, a resource and a page of related instances; the texts would end
their literals and open new selections if they were not escaped. -/
theorem query_reads_back_blog :
    let tag := ((TypeDef.make "Tag" .object).withDirective (.named "inline" ∅)).withField
      (.make "label" (.make "String" false true))
    let post := (((TypeDef.make "Post" .object).withField
      (.make "tag" (.make "Tag" false false))).withField
        (.make "cover" (.make "File" false false))).withField
          (.make "related" (.make "Post" true false))
    let g : Graph := ⟨Keyed.ofList [("Tag", tag), ("Post", post)]⟩
    let p : GetParams := ⟨"\"\x7d) \x7b name \x7d", none,
      Keyed.ofList [("related", "\\\"\n\"\"\"")], Keyed.ofList [("related", .null)], 2, "blog", "Post"⟩
    ∃ q nodes, g.violations = [] ∧ g.Named ∧ (QueryRequest.get p).Plain ∧
      g.query (.get p) = .ok q ∧
      Executable.ofText q.text = .ok [.operation .query (some "getPostById")
        [⟨"related", .named "_ListPostFilter" false, none, []⟩] [] nodes] ∧
      (nodes.flatMap Executable.Node.passed).filter Passed.isText =
        [⟨"getPostById", "instance",
            .object [("externalId", .text "\"\x7d) \x7b name \x7d"), ("space", .text "blog")]⟩,
          ⟨"related", "after", .text "\\\"\n\"\"\""⟩] := by
  intro tag post g p
  have hrules : g.violations = [] := by decide +kernel
  have hnamed : g.Named := by
    refine Keyed.all_ofList (List.forall_mem_cons.2 ⟨⟨by decide, ?_⟩,
      List.forall_mem_singleton.2 ⟨by decide, ?_⟩⟩)
    · exact (by decide : ∀ f ∈ tag.fields.values, IsNamed f.name)
    · exact (by decide : ∀ f ∈ post.fields.values, IsNamed f.name)
  have hplain : (QueryRequest.get p).Plain := (by decide : 2 < 2 ^ 32)
  have hname : (g.query (.get p)).toOption.map Query.operationName = some "getPostById" := by
    decide +kernel
  obtain ⟨q, hquery, hname⟩ := exists_eq_ok_of_map hname
  obtain ⟨nodes, -, htext, htexts⟩ := query_reads_back hrules hnamed hplain hquery
  rw [hname] at htext
  exact ⟨q, nodes, hrules, hnamed, hplain, hquery, htext, htexts⟩

end Graph

end SchemaGraph
