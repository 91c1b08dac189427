import SchemaGraph.Proofs.Query.Accepted

/-! The order of a list. The field to sort by is the one text of the caller that is written into the
document as it is, so the document says what was asked only if that text is a name. -/

namespace SchemaGraph

open Sdl

def Query.SortsBy (q : Query) (p : ListParams) (key : String) : Prop :=
  ∃ declared passed value children, Executable.ofText q.text =
    .ok [.operation .query (some ("list" ++ p.typeName)) declared []
      [.field none ("list" ++ p.typeName) (passed ++ [("sort", .object [(key, value)])]) []
        children]] ∧
    passed.map Prod.fst = "filter" :: "first" :: p.cursor.toList.map fun _ => "after"

/-- A reader finds nothing but names at the keys of an object. -/
theorem Query.SortsBy.isNamed {q : Query} {p : ListParams} {key : String} (h : q.SortsBy p key) :
    IsNamed key := by
  obtain ⟨declared, passed, value, children, htext, -⟩ := h
  have hformed := Executable.formed_of_ofText htext _ List.mem_cons_self _ List.mem_cons_self
  have hsort : (Value.object [(key, value)]).Formed false := by
    refine hformed ⟨"list" ++ p.typeName, "sort", .object [(key, value)]⟩ ?_
    rw [Executable.Node.passed]
    refine List.mem_append_left _ (List.mem_map.2 ⟨("sort", .object [(key, value)]), ?_, rfl⟩)
    exact List.mem_append_right _ List.mem_cons_self
  cases hsort with
  | object _ hnames _ => exact hnames _ List.mem_cons_self

theorem Query.SortsBy.single_root {q : Query} {p : ListParams} {key : String}
    (h : q.SortsBy p key) : (Executable.ofText q.text).toOption.map
      (fun ds => ds.map fun d => d.selected.length) = some [1] := by
  obtain ⟨_, _, _, _, htext, -⟩ := h
  rw [htext]
  rfl

namespace Graph

variable {g : Graph} {p : ListParams} {s : SortOrder} {q : Query}

theorem named_single {t : TypeDef} (hname : IsNamed t.name) (hfields : t.FieldsNamed IsNamed) :
    Named ⟨Keyed.ofList [(t.name, t)]⟩ :=
  Keyed.all_ofList (List.forall_mem_singleton.2 ⟨hname, hfields⟩)

theorem sortsBy_of_isNamed (hrules : g.violations = []) (hnamed : g.Named)
    (hsort : p.sort = some s) (hlimit : p.limit < 2 ^ 32) (hnested : p.nestedLimit < 2 ^ 32)
    (hname : IsNamed s.fieldName) (h : g.listQuery p = .ok q) : q.SortsBy p s.fieldName := by
  have hnames : ∀ s' ∈ p.sort, IsNamed s'.fieldName := by
    rw [hsort]
    rintro _ ⟨⟩
    exact hname
  have htext := (regular_listQuery hrules hnamed hlimit hnested hnames h).ofText_render
  obtain ⟨t, ht, h⟩ := bind_eq_ok_iff.1 h
  obtain ⟨items, -, h⟩ := bind_eq_ok_iff.1 h
  cases h
  obtain ⟨hkey, -⟩ := target_spec hrules hnamed (target_eq_ok_iff.1 ht)
  -- The reader keeps the arguments in their order, and an object of one entry as it is.
  let passed : List (String × Value) := [("filter", .variable "filter"), ("first", .int p.limit)] ++
    p.cursor.toList.map fun c => ("after", .text c)
  have hpassed : passed.map Selection.argument = passed := by
    simp [passed, Selection.argument, Value.arranged, Function.comp_def]
  have harguments : (passed ++ p.sort.toList.map fun s => ("sort", sortValue s)).map
      Selection.argument =
        passed ++ [("sort", .object [(s.fieldName, .enum s.direction.keyword)])] := by
    rw [hsort, List.map_append, hpassed]
    rfl
  refine ⟨[Operation.declaration (filterVariable .list t)], passed, .enum s.direction.keyword,
    Selection.toNodes [.node "items" items, pageInfo], htext.trans ?_, ?_⟩
  · rw [hkey, ← harguments]
    rfl
  · simp [passed, Function.comp_def]

/-- The document asks for the order by the given field exactly if the field is a name. -/
theorem sortsBy_iff (hrules : g.violations = []) (hnamed : g.Named) (hsort : p.sort = some s)
    (hlimit : p.limit < 2 ^ 32) (hnested : p.nestedLimit < 2 ^ 32) (h : g.listQuery p = .ok q) :
    q.SortsBy p s.fieldName ↔ IsNamed s.fieldName :=
  ⟨Query.SortsBy.isNamed, fun hname =>
    sortsBy_of_isNamed hrules hnamed hsort hlimit hnested hname h⟩

theorem sortsBy_of_title :
    let post := (TypeDef.make "Post" .object).withField (.make "title" (.make "String" false true))
    let g : Graph := ⟨Keyed.ofList [("Post", post)]⟩
    let p : ListParams := ⟨some "\"\x7d)", none, 10, none, 2, some ⟨.descending, "title"⟩, "Post"⟩
    ∃ q, g.violations = [] ∧ g.Named ∧ p.sort = some ⟨.descending, "title"⟩ ∧ p.limit < 2 ^ 32 ∧
      p.nestedLimit < 2 ^ 32 ∧ g.listQuery p = .ok q ∧ q.SortsBy p "title" := by
  intro post g p
  have hrules : g.violations = [] := by decide +kernel
  have hfields : ∀ f ∈ post.fields.values, IsNamed f.name := by decide
  have hnamed : g.Named := named_single (by decide) hfields
  have hquery : (g.listQuery p).toOption.map Query.operationName = some "listPost" := by
    decide +kernel
  obtain ⟨q, h, -⟩ := exists_eq_ok_of_map hquery
  have hlimits : 10 < 2 ^ 32 ∧ 2 < 2 ^ 32 := by decide
  refine ⟨q, hrules, hnamed, rfl, hlimits.1, hlimits.2, h, ?_⟩
  exact (sortsBy_iff hrules hnamed rfl hlimits.1 hlimits.2 h).2 (by decide)

/-- A text that is not a name can end the object and all that it is in, and ask for another list. -/
theorem not_sortsBy_of_field :
    let post := (TypeDef.make "Post" .object).withField (.make "title" (.make "String" false true))
    let g : Graph := ⟨Keyed.ofList [("Post", post)]⟩
    let field := "title: ASC\x7d) \x7b items \x7b title \x7d \x7d listUser(sort: \x7bname"
    let p : ListParams := ⟨none, none, 10, some [], 2, some ⟨.ascending, field⟩, "Post"⟩
    let text := "query listPost($filter: _ListPostFilter) \x7b\n" ++
      "  listPost(filter: $filter, first: 10, sort: \x7b" ++ field ++ ": ASC\x7d) \x7b\n" ++
      "    items \x7b\n      externalId\n      space\n      lastUpdatedTime\n" ++
      "      createdTime\n      __typename\n    \x7d\n    pageInfo \x7b\n      startCursor\n" ++
      "      hasPreviousPage\n      hasNextPage\n      endCursor\n    \x7d\n  \x7d\n\x7d\n"
    ∃ q, g.violations = [] ∧ g.Named ∧ g.listQuery p = .ok q ∧ q.text = text ∧
      ∀ key, ¬q.SortsBy p key := by
  intro post g field p text
  have hrules : g.violations = [] := by decide +kernel
  have hfields : ∀ f ∈ post.fields.values, IsNamed f.name := by decide
  have hnamed : g.Named := named_single (by decide) hfields
  have hquery : (g.listQuery p).toOption.map Query.text = some text := by decide +kernel
  have hroots : (Executable.ofText text).toOption.map
      (fun ds => ds.map fun d => d.selected.length) = some [2] := by
    simp only [text, Executable.ofText, String.toList_append]
    repeat rw [String.toList_ofList]
    decide +kernel
  obtain ⟨q, h, htext⟩ := exists_eq_ok_of_map hquery
  refine ⟨q, hrules, hnamed, h, htext, fun key hsorts => ?_⟩
  have hroot := hsorts.single_root
  rw [htext, hroots] at hroot
  exact absurd hroot (by decide)

end Graph

end SchemaGraph
