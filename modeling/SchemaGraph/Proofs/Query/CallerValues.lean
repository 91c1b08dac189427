import SchemaGraph.Proofs.Query.NestedArguments

/-! What values of the caller do to a document. The values of variables are nowhere in its text. A
text that is passed on stands in it as a literal, and nothing else depends on what text it is. -/

namespace SchemaGraph

/-! Texts with a literal in them -/

/-- Of another text nothing shows but its literal, which stands in a fixed number of places. -/
def QuotedIn (places : Nat) (text : String → String) : Prop :=
  ∃ parts : List String, parts.length = places + 1 ∧
    ∀ s, text s = (Text.quote s).intercalate parts

theorem quotedIn_const (text : String) : QuotedIn 0 fun _ => text :=
  ⟨[text], rfl, fun _ => String.intercalate_singleton.symm⟩

theorem quotedIn_quote : QuotedIn 1 Text.quote := by
  refine ⟨["", ""], rfl, fun s => ?_⟩
  rw [String.intercalate_cons_cons, String.intercalate_singleton, String.empty_append,
    String.append_empty]

theorem append_intercalate (sep a b : String) (bs : List String) :
    a ++ sep.intercalate (b :: bs) = sep.intercalate ((a ++ b) :: bs) := by
  cases bs with
  | nil => rw [String.intercalate_singleton, String.intercalate_singleton]
  | cons c bs => simp only [String.intercalate_cons_cons, String.append_assoc]

theorem intercalate_append (sep a b : String) (as bs : List String) :
    sep.intercalate (as ++ [a]) ++ sep.intercalate (b :: bs) =
      sep.intercalate (as ++ (a ++ b) :: bs) := by
  by_cases has : as = []
  · rw [has, List.nil_append, List.nil_append, String.intercalate_singleton, append_intercalate]
  · rw [String.intercalate_append_of_ne_nil has (List.cons_ne_nil _ _),
      String.intercalate_append_of_ne_nil has (List.cons_ne_nil _ _),
      String.intercalate_singleton, String.append_assoc, append_intercalate]

theorem quotedIn_text : QuotedIn 1 fun s => (Sdl.Value.text s).render := quotedIn_quote

section Texts

variable {m n : Nat} {text text' : String → String}

theorem QuotedIn.append (h : QuotedIn m text) (h' : QuotedIn n text') :
    QuotedIn (m + n) fun s => text s ++ text' s := by
  obtain ⟨parts, hlength, htext⟩ := h
  obtain ⟨parts', hlength', htext'⟩ := h'
  obtain rfl | ⟨as, a, rfl⟩ := List.eq_nil_or_concat parts
  · cases hlength
  · obtain ⟨b, bs, rfl⟩ := List.exists_cons_of_length_eq_add_one hlength'
    refine ⟨as ++ (a ++ b) :: bs, ?_, fun s => ?_⟩
    · simp only [List.concat_eq_append, List.length_append, List.length_cons, List.length_nil]
        at hlength hlength' ⊢
      omega
    · rw [← intercalate_append, ← List.concat_eq_append, ← htext, ← htext']

theorem QuotedIn.between (h : QuotedIn n text) (before after : String) :
    QuotedIn n fun s => before ++ text s ++ after := by
  have hall := ((quotedIn_const before).append h).append (quotedIn_const after)
  rwa [Nat.zero_add, Nat.add_zero] at hall

theorem QuotedIn.intercalate (h : QuotedIn n text) (sep : String) (as bs : List String) :
    QuotedIn n fun s => sep.intercalate (as ++ text s :: bs) := by
  have hfirst : QuotedIn n fun s => sep.intercalate (text s :: bs) := by
    cases bs with
    | nil => simpa only [String.intercalate_singleton] using h
    | cons b bs =>
      simpa only [String.intercalate_cons_cons, String.append_assoc, String.empty_append] using
        h.between "" (sep ++ sep.intercalate (b :: bs))
  by_cases has : as = []
  · simpa only [has, List.nil_append] using hfirst
  · simpa only [String.intercalate_append_of_ne_nil has (List.cons_ne_nil _ _),
      String.append_empty] using hfirst.between (sep.intercalate as ++ sep) ""

end Texts

theorem quotedIn_object {n : Nat} {value : String → Sdl.Value}
    (h : QuotedIn n fun s => (value s).render) (name : String) (as bs : List (String × Sdl.Value)) :
    QuotedIn n fun s => (Sdl.Value.object (as ++ (name, value s) :: bs)).render := by
  have hentry : QuotedIn n fun s => name ++ ": " ++ (value s).render := by
    simpa only [String.append_empty] using h.between (name ++ ": ") ""
  simpa only [Sdl.Value.render, Sdl.renderEntries_eq_map, List.map_append, List.map_cons] using
    (hentry.intercalate ", " _ _).between "\x7b" "\x7d"

/-! Results that depend on a text -/

/-- Whatever the text is, there is the same failure, or there is a value. -/
def Uniformly {α : Type} (P : (String → α) → Prop) (result : String → Except QueryError α) :
    Prop :=
  (∃ e, ∀ s, result s = .error e) ∨ ∃ value : String → α, (∀ s, result s = .ok (value s)) ∧ P value

section Results

variable {α β : Type} {P : (String → α) → Prop} {Q : (String → β) → Prop}

theorem uniformly_const {result : Except QueryError α} (h : ∀ a, result = .ok a → P fun _ => a) :
    Uniformly P fun _ => result := by
  cases result with
  | error e => exact .inl ⟨e, fun _ => rfl⟩
  | ok a => exact .inr ⟨fun _ => a, fun _ => rfl, h a rfl⟩

theorem Uniformly.bind {result : String → Except QueryError α}
    {next : String → α → Except QueryError β} (h : Uniformly P result)
    (hnext : ∀ value, P value → Uniformly Q fun s => next s (value s)) :
    Uniformly Q fun s => result s >>= next s := by
  rcases h with ⟨e, he⟩ | ⟨value, hvalue, hP⟩
  · refine .inl ⟨e, fun s => ?_⟩
    show result s >>= next s = .error e
    rw [he]
    rfl
  · have hstep : ∀ s, (result s >>= next s) = next s (value s) := fun s => by
      rw [hvalue]
      rfl
    simpa only [hstep] using hnext value hP

theorem uniformly_bind {result : Except QueryError α} {next : String → α → Except QueryError β}
    (h : ∀ a, result = .ok a → Uniformly Q fun s => next s a) :
    Uniformly Q fun s => result >>= next s := by
  cases result with
  | error e => exact .inl ⟨e, fun _ => rfl⟩
  | ok a => exact h a rfl

end Results

/-! Selections -/

namespace Selection

theorem renderAll_append (depth : Nat) (as bs : List Selection) :
    renderAll depth (as ++ bs) = renderAll depth as ++ renderAll depth bs := by
  rw [renderAll_eq_join, renderAll_eq_join, renderAll_eq_join, List.map_append, String.join_append]

theorem renderAll_singleton (depth : Nat) (c : Selection) : renderAll depth [c] = render depth c :=
  String.append_empty

theorem render_of_ne_nil (depth : Nat) (name : String) (as : List (String × Sdl.Value))
    {cs : List Selection} (h : cs ≠ []) : render depth (field name as cs) =
      indent depth ++ name ++ renderArguments as ++ " \x7b\n" ++
        renderAll (depth + 1) cs ++ indent depth ++ "\x7d\n" := by
  cases cs with
  | nil => exact absurd rfl h
  | cons c cs => rfl

theorem quotedIn_renderArguments {n : Nat} {value : String → Sdl.Value}
    (h : QuotedIn n fun s => (value s).render) (name : String) (as bs : List (String × Sdl.Value)) :
    QuotedIn n fun s => renderArguments (as ++ (name, value s) :: bs) := by
  have hrender : ∀ s, renderArguments (as ++ (name, value s) :: bs) = "(" ++
      ", ".intercalate ((as ++ (name, value s) :: bs).map fun a => a.1 ++ ": " ++ a.2.render) ++
        ")" := by
    intro s
    cases as <;> rfl
  have hargument : QuotedIn n fun s => name ++ ": " ++ (value s).render := by
    simpa only [String.append_empty] using h.between (name ++ ": ") ""
  simpa only [hrender, List.map_append, List.map_cons] using
    (hargument.intercalate ", " _ _).between "(" ")"

section Render

variable {m n : Nat} {cs : String → List Selection}

theorem quotedIn_render {as : String → List (String × Sdl.Value)}
    (has : QuotedIn m fun s => renderArguments (as s))
    (hcs : ∀ depth, QuotedIn n fun s => renderAll depth (cs s)) (hne : ∀ s, cs s ≠ [])
    (name : String) (depth : Nat) :
    QuotedIn (m + n) fun s => render depth (field name (as s) (cs s)) := by
  have hhead := has.between (indent depth ++ name) " \x7b\n"
  simpa only [render_of_ne_nil depth name _ (hne _), String.append_assoc, String.empty_append] using
    (hhead.append (hcs (depth + 1))).between "" (indent depth ++ "\x7d\n")

theorem quotedIn_node (hcs : ∀ depth, QuotedIn n fun s => renderAll depth (cs s))
    (hne : ∀ s, cs s ≠ []) (name : String) (depth : Nat) :
    QuotedIn n fun s => renderAll depth [node name (cs s)] := by
  simpa only [renderAll_singleton, Nat.zero_add, node] using
    quotedIn_render (quotedIn_const (renderArguments [])) hcs hne name depth

end Render

theorem uniformly_mapM {select : String → Field → Except QueryError Selection}
    {shows : Field → Bool} (h : ∀ f, Uniformly (fun c => ∀ depth,
      QuotedIn (if shows f then 1 else 0) fun s => (c s).render depth) fun s => select s f)
    (fs : List Field) :
    Uniformly (fun cs => ∀ depth,
        QuotedIn (fs.filter shows).length fun s => renderAll depth (cs s))
      fun s => fs.mapM (select s) := by
  induction fs with
  | nil =>
    refine uniformly_const fun _ hnil depth => ?_
    cases hnil
    exact quotedIn_const _
  | cons f fs ih =>
    have hplaces : ((f :: fs).filter shows).length =
        (if shows f then 1 else 0) + (fs.filter shows).length := by
      rw [List.filter_cons]
      cases shows f <;> simp [Nat.add_comm]
    simp only [List.mapM_cons, hplaces]
    refine (h f).bind fun c hc => ih.bind fun cs hcs => ?_
    exact .inr ⟨fun s => c s :: cs s, fun _ => rfl, fun depth => (hc depth).append (hcs depth)⟩

end Selection

/-! Fields -/

def ItemOptions.withCursor (o : ItemOptions) (fieldName cursor : String) : ItemOptions :=
  { o with nestedCursors := o.nestedCursors.insert fieldName cursor }

section Fields

variable (g : Graph) (o : ItemOptions) (f : Field)

theorem fieldSelection_of_pages (h : g.pages f = true) :
    fieldSelection g o f = .ok (relationList o f) := by
  simp only [Graph.pages, Field.isRelation, Bool.and_eq_true, Bool.not_eq_true',
    Option.isNone_iff_eq_none] at h
  obtain ⟨⟨⟨hcustom, hresource⟩, hlist⟩, htarget⟩ := h
  unfold fieldSelection
  simp only [hcustom, hresource, hlist, htarget]
  rfl

theorem fieldSelection_congr (o' : ItemOptions) (h : g.pages f = false) :
    fieldSelection g o f = fieldSelection g o' f := by
  unfold fieldSelection
  simp only [Graph.pages, Field.isRelation] at h
  grind

theorem quotedIn_relationList (fieldName : String) (depth : Nat) :
    QuotedIn (if f.name = fieldName then 1 else 0) fun s =>
      (relationList (o.withCursor fieldName s) f).render depth := by
  by_cases hname : f.name = fieldName
  · have hshape : ∀ s, relationList (o.withCursor fieldName s) f =
        .field f.name ((if o.nestedFilters.contains f.name then
          [("filter", .variable f.name)] else []) ++ [("first", .int o.nestedLimit)] ++
            ("after", .text s) :: []) (relationList o f).children := by
      intro s
      have hcursor : (o.withCursor fieldName s).nestedCursors.get? f.name = some s := by
        rw [hname]
        exact Keyed.get?_insert_self _ _ _
      unfold relationList
      rw [hcursor]
      rfl
    simp only [hshape, if_pos hname]
    exact Selection.quotedIn_render (Selection.quotedIn_renderArguments quotedIn_text _ _ _)
      (fun _ => quotedIn_const _) (fun _ => List.cons_ne_nil _ _) _ depth
  · have hsame : ∀ s, relationList (o.withCursor fieldName s) f = relationList o f := by
      intro s
      have hcursor : (o.withCursor fieldName s).nestedCursors.get? f.name =
          o.nestedCursors.get? f.name := by
        unfold ItemOptions.withCursor
        rw [Keyed.get?_insert, if_neg hname]
      unfold relationList
      rw [hcursor]
      rfl
    simp only [hsame, if_neg hname]
    exact quotedIn_const _

def Graph.showsCursor (g : Graph) (fieldName : String) (f : Field) : Bool :=
  g.pages f && f.name = fieldName

theorem uniformly_fieldSelection (fieldName : String) :
    Uniformly (fun c => ∀ depth,
        QuotedIn (if g.showsCursor fieldName f then 1 else 0) fun s => (c s).render depth)
      fun s => fieldSelection g (o.withCursor fieldName s) f := by
  unfold Graph.showsCursor
  cases hpages : g.pages f with
  | true =>
    simp only [fieldSelection_of_pages g _ f hpages, Bool.true_and, decide_eq_true_eq]
    exact .inr ⟨_, fun _ => rfl, quotedIn_relationList o f fieldName⟩
  | false =>
    simp only [fun s => fieldSelection_congr g (o.withCursor fieldName s) f o hpages]
    exact uniformly_const fun _ _ _ => quotedIn_const _

end Fields

theorem itemSelections_congr_filters (g : Graph) (o : ItemOptions) (t : TypeDef)
    {filters : Keyed Json} (h : ∀ k, filters.contains k = o.nestedFilters.contains k) :
    itemSelections g { o with nestedFilters := filters } t = itemSelections g o t := by
  have hfield : fieldSelection g { o with nestedFilters := filters } = fieldSelection g o := by
    funext f
    cases hpages : g.pages f with
    | true =>
      rw [fieldSelection_of_pages g _ f hpages, fieldSelection_of_pages g _ f hpages]
      unfold relationList
      rw [h]
    | false => exact fieldSelection_congr g _ f _ hpages
  unfold itemSelections
  rw [hfield]
  rfl

theorem uniformly_itemSelections (g : Graph) (o : ItemOptions) (t : TypeDef)
    (fieldName : String) :
    Uniformly (fun items => (∀ s, items s ≠ []) ∧ ∀ depth,
        QuotedIn ((selectedFields o t).filter (g.showsCursor fieldName)).length fun s =>
          Selection.renderAll depth (items s))
      fun s => itemSelections g (o.withCursor fieldName s) t := by
  have hfields := Selection.uniformly_mapM (fun f => uniformly_fieldSelection g o f fieldName)
    (selectedFields o t)
  show Uniformly _ fun s => (selectedFields o t).mapM
    (fieldSelection g (o.withCursor fieldName s)) >>= fun fields => pure (identity ++ fields)
  refine hfields.bind fun fields hfields => .inr ⟨fun s => identity ++ fields s, fun _ => rfl,
    fun _ => List.cons_ne_nil _ _, fun depth => ?_⟩
  have hall := (quotedIn_const (Selection.renderAll depth identity)).append (hfields depth)
  simpa only [Selection.renderAll_append, Nat.zero_add] using hall

/-! Queries -/

section Operations

variable {m n : Nat}

theorem quotedIn_operation {root : String → Selection}
    (h : QuotedIn n fun s => Selection.renderAll 1 [root s]) (name : String)
    (declared : List (String × Sdl.TypeRef)) :
    QuotedIn n fun s => (Operation.mk name declared [root s]).render :=
  h.between ("query " ++ name ++ Operation.renderVariables declared ++ " \x7b\n") "\x7d\n"

theorem quotedIn_root {as : String → List (String × Sdl.Value)} {cs : String → List Selection}
    (has : QuotedIn m fun s => Selection.renderArguments (as s))
    (hcs : ∀ depth, QuotedIn n fun s => Selection.renderAll depth (cs s)) (hne : ∀ s, cs s ≠ [])
    (name : String) (declared : List (String × Sdl.TypeRef)) :
    QuotedIn (m + n) fun s => (Operation.mk name declared [.field name (as s) (cs s)]).render := by
  refine quotedIn_operation ?_ name declared
  simp only [Selection.renderAll_singleton]
  exact Selection.quotedIn_render has hcs hne name 1

end Operations

def Quotes (places : Nat) (build : String → Except QueryError Query) : Prop :=
  Uniformly (fun q => QuotedIn places fun s => (q s).text) build

namespace Graph

variable (g : Graph)

/-! Values that nothing shows -/

theorem text_listQuery_filter (p : ListParams) (filter : Option Json) :
    Query.text <$> g.listQuery { p with filter } = Query.text <$> g.listQuery p := by
  simp only [listQuery, map_bind, map_pure]
  rfl

theorem text_searchQuery_values (p : SearchParams) (searchTerm : String) (limit : Option Nat)
    (filter : Option Json) :
    Query.text <$> g.searchQuery { p with searchTerm, limit, filter } =
      Query.text <$> g.searchQuery p := by
  simp only [searchQuery, map_bind, map_pure]
  rfl

theorem text_getQuery (p : GetParams) : Query.text <$> g.getQuery p = (do
    let t ← g.target p.typeName
    (p.nestedCursors.keys ++ p.nestedFilters.keys).forM (checkNested t)
    let items ← itemSelections g p.options t
    pure (Operation.mk (OperationKind.get.operationName t.name)
      ((p.filtered t).map fun f =>
        (f.name, .named (OperationKind.list.filterTypeName f.type.name) false))
      [.field (OperationKind.get.operationName t.name) [("instance", p.identifier)]
        [.node "items" items]]).render) := by
  simp only [getQuery, map_bind, map_pure, ← p.map_fst_filters, List.map_map]
  rfl

theorem text_getQuery_nestedFilters (p : GetParams) {filters : Keyed Json}
    (h : filters.keys = p.nestedFilters.keys) :
    Query.text <$> g.getQuery { p with nestedFilters := filters } =
      Query.text <$> g.getQuery p := by
  have hcontains : ∀ k, filters.contains k = p.nestedFilters.contains k := fun k => by
    rw [Bool.eq_iff_iff, Keyed.contains_iff_mem_keys, Keyed.contains_iff_mem_keys, h]
  have hitems : ∀ t, itemSelections g (GetParams.options { p with nestedFilters := filters }) t =
      itemSelections g p.options t := fun t =>
    itemSelections_congr_filters g p.options t hcontains
  have hfiltered : ∀ t, GetParams.filtered { p with nestedFilters := filters } t = p.filtered t :=
    fun t => by
      unfold GetParams.filtered
      simp only [hcontains]
      rfl
  rw [text_getQuery, text_getQuery]
  simp only [h, hitems, hfiltered]
  rfl

/-! Values that are passed on -/

theorem quotes_listQuery (p : ListParams) :
    Quotes 1 fun s => g.listQuery { p with cursor := some s } := by
  simp only [Quotes, listQuery]
  refine uniformly_bind fun t _ => uniformly_bind fun items _ => .inr ⟨_, fun _ => rfl, ?_⟩
  have hroot := quotedIn_root (Selection.quotedIn_renderArguments quotedIn_text "after"
    [("filter", .variable "filter"), ("first", .int p.limit)]
    (p.sort.toList.map fun s => ("sort", sortValue s)))
    (fun _ => quotedIn_const _) (fun _ => List.cons_ne_nil (.node "items" items) [pageInfo])
    (OperationKind.list.operationName t.name) [filterVariable .list t]
  exact hroot

theorem quotes_getQuery_identifier (p : GetParams) (space externalId : String → String)
    (h : QuotedIn 1 fun s => (GetParams.identifier
      { p with space := space s, externalId := externalId s }).render) :
    Quotes 1 fun s => g.getQuery { p with space := space s, externalId := externalId s } := by
  simp only [Quotes, getQuery]
  refine uniformly_bind fun t _ => uniformly_bind fun _ _ => uniformly_bind fun items _ =>
    .inr ⟨_, fun _ => rfl, ?_⟩
  have hroot := fun declared => quotedIn_root
    (Selection.quotedIn_renderArguments h "instance" [] []) (fun _ => quotedIn_const _)
    (fun _ => List.cons_ne_nil (Selection.node "items" items) [])
    (OperationKind.get.operationName t.name) declared
  exact hroot _

theorem quotes_getQuery_space (p : GetParams) :
    Quotes 1 fun s => g.getQuery { p with space := s } :=
  g.quotes_getQuery_identifier p id (fun _ => p.externalId)
    (quotedIn_object quotedIn_text "space" [] [("externalId", .text p.externalId)])

theorem quotes_getQuery_externalId (p : GetParams) :
    Quotes 1 fun s => g.getQuery { p with externalId := s } :=
  g.quotes_getQuery_identifier p (fun _ => p.space) id
    (quotedIn_object quotedIn_text "externalId" [("space", .text p.space)] [])

def cursorPlaces (p : GetParams) (fieldName : String) : Nat :=
  ((g.shown p).filter (g.showsCursor fieldName)).length

theorem quotes_getQuery_nestedCursor (p : GetParams) {fieldName : String}
    (h : fieldName ∈ p.nestedCursors.keys) :
    Quotes (g.cursorPlaces p fieldName) fun s =>
      g.getQuery { p with nestedCursors := p.nestedCursors.insert fieldName s } := by
  have hkeys : ∀ s, (p.nestedCursors.insert fieldName s).keys = p.nestedCursors.keys :=
    fun s => by rw [Keyed.keys_insert, if_pos h]
  simp only [Quotes, getQuery, hkeys]
  refine uniformly_bind fun t ht => uniformly_bind fun _ _ => ?_
  have hplaces : g.cursorPlaces p fieldName =
      ((selectedFields p.options t).filter (g.showsCursor fieldName)).length := by
    simp [cursorPlaces, shown, target_eq_ok_iff.1 ht]
  rw [hplaces]
  refine (uniformly_itemSelections g p.options t fieldName).bind fun items hitems =>
    .inr ⟨_, fun _ => rfl, ?_⟩
  have hnode := Selection.quotedIn_node hitems.2 hitems.1 "items"
  -- The declared variables are written out, as they must not be sought under the cursor.
  have hroot := quotedIn_root
    (quotedIn_const (Selection.renderArguments [("instance", p.identifier)]))
    hnode (fun _ => List.cons_ne_nil _ _) (OperationKind.get.operationName t.name)
    (((selectedFields p.options t).filterMap fun f =>
      (p.nestedFilters.get? f.name).map fun j => (f, j)).map fun e =>
        (e.1.name, .named (OperationKind.list.filterTypeName e.1.type.name) false))
  rw [Nat.zero_add] at hroot
  exact hroot

theorem cursorPlaces_le_one (hrules : g.violations = []) (p : GetParams) (fieldName : String) :
    g.cursorPlaces p fieldName ≤ 1 := by
  unfold cursorPlaces shown
  cases htype : g.type? p.typeName with
  | none => exact Nat.zero_le _
  | some t =>
    have hnodup := nodup_selected_names hrules htype p.options
    have hnames : ∀ name ∈ ((selectedFields p.options t).filter (g.showsCursor fieldName)).map
        Field.name, name = fieldName := by
      simp only [List.mem_map, List.mem_filter, showsCursor, Bool.and_eq_true, decide_eq_true_eq]
      rintro name ⟨f, ⟨-, -, hname⟩, rfl⟩
      exact hname
    have hone := hnodup.sublist
      ((List.filter_sublist (p := g.showsCursor fieldName)).map Field.name)
    rw [List.eq_replicate_of_mem hnames, List.nodup_replicate, List.length_map] at hone
    simpa using hone

/-- What the values of a caller do to the documents for a graph. The values of variables do
nothing. Of a text that is passed on the literal stands in one place; that of a cursor for the
lists of a field, where they are selected. Nothing of them decides between success and failure. -/
structure OnlyQuotes : Prop where
  filter (p : ListParams) (filter : Option Json) :
    Query.text <$> g.listQuery { p with filter } = Query.text <$> g.listQuery p
  search (p : SearchParams) (searchTerm : String) (limit : Option Nat) (filter : Option Json) :
    Query.text <$> g.searchQuery { p with searchTerm, limit, filter } =
      Query.text <$> g.searchQuery p
  nestedFilters (p : GetParams) (filters : Keyed Json) :
    filters.keys = p.nestedFilters.keys →
      Query.text <$> g.getQuery { p with nestedFilters := filters } = Query.text <$> g.getQuery p
  cursor (p : ListParams) : Quotes 1 fun s => g.listQuery { p with cursor := some s }
  space (p : GetParams) : Quotes 1 fun s => g.getQuery { p with space := s }
  externalId (p : GetParams) : Quotes 1 fun s => g.getQuery { p with externalId := s }
  nestedCursor (p : GetParams) (fieldName : String) : fieldName ∈ p.nestedCursors.keys →
    Quotes (g.cursorPlaces p fieldName) fun s =>
      g.getQuery { p with nestedCursors := p.nestedCursors.insert fieldName s }
  place (p : GetParams) (fieldName : String) : g.violations = [] → g.cursorPlaces p fieldName ≤ 1

theorem onlyQuotes : g.OnlyQuotes where
  filter := g.text_listQuery_filter
  search := g.text_searchQuery_values
  nestedFilters p _ h := g.text_getQuery_nestedFilters p h
  cursor := g.quotes_listQuery
  space := g.quotes_getQuery_space
  externalId := g.quotes_getQuery_externalId
  nestedCursor p _ h := g.quotes_getQuery_nestedCursor p h
  place p fieldName hrules := g.cursorPlaces_le_one hrules p fieldName

/-- Two fields of one name, under different keys, show the same cursor. -/
theorem two_places_of_same_name :
    let related := Field.make "related" (.make "Post" true false)
    let post := { TypeDef.make "Post" .object with
      fields := Keyed.ofList [("related", related), ("copy", related)] }
    let g : Graph := ⟨Keyed.ofList [("Post", post)]⟩
    let p (cursor : String) : GetParams :=
      ⟨"first", none, Keyed.ofList [("related", cursor)], ∅, 2, "blog", "Post"⟩
    ∃ q q', g.getQuery (p "") = .ok q ∧ g.getQuery (p "a") = .ok q' ∧
      ¬∃ before after, q.text = before ++ Text.quote "" ++ after ∧
        q'.text = before ++ Text.quote "a" ++ after := by
  intro related post g p
  have hname : (g.getQuery (p "")).toOption.map Query.operationName = some "getPostById" := by
    decide +kernel
  have hplaces : g.cursorPlaces (p "") "related" = 2 := by decide +kernel
  have hquotes : Quotes 2 fun s => g.getQuery (p s) :=
    hplaces ▸ g.quotes_getQuery_nestedCursor (p "") List.mem_cons_self
  obtain ⟨e, he⟩ | ⟨query, hquery, parts, hparts, htext⟩ := hquotes
  · obtain ⟨q, hq, -⟩ := exists_eq_ok_of_map hname
    exact absurd (hq.symm.trans (he "")) (by simp)
  · refine ⟨query "", query "a", hquery "", hquery "a", fun ⟨before, after, hq, hq'⟩ => ?_⟩
    obtain ⟨a, b, c, rfl⟩ := List.length_eq_three.1 hparts
    -- Two literals make the text two longer, one would make it one longer.
    have hlength := congrArg String.length ((htext "").symm.trans hq)
    have hlength' := congrArg String.length ((htext "a").symm.trans hq')
    have hempty : (Text.quote "").length = 2 := by decide +kernel
    have hone : (Text.quote "a").length = 3 := by decide +kernel
    simp only [String.intercalate_cons_cons, String.intercalate_singleton, String.length_append,
      hempty, hone] at hlength hlength'
    omega

end Graph

end SchemaGraph
