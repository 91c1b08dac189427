import SchemaGraph.Proofs.Query.Shapes

/-! Requests that name the fields to select. Of the selections that there would be without the
names, only those of other fields are gone, and for a single instance the variables with their
filters; nothing else is touched, and nothing goes wrong that goes well without the names. -/

namespace SchemaGraph

def QueryRequest.limited (names : Option (List String)) : QueryRequest → QueryRequest
  | .list p => .list { p with limitFields := names }
  | .get p => .get { p with limitFields := names }
  | .search p => .search { p with limitFields := names }
  | r => r

namespace Selection

def remains (names : List String) (s : Selection) : Bool :=
  systemFields.contains s.name || names.contains s.name

def pruned (names : List String) : Selection → Selection
  | .field name as cs => .field name as (if name = "items" then cs.filter (remains names) else cs)

def limited (names : List String) : Selection → Selection
  | .field name as cs => .field name as (cs.map (pruned names))

theorem limited_root (names : List String) (name : String) (as : List (String × Sdl.Value))
    (items : List Selection) {rest : List Selection} (hrest : rest = [] ∨ rest = [pageInfo]) :
    limited names (.field name as (.node "items" items :: rest)) =
      .field name as (.node "items" (items.filter (remains names)) :: rest) := by
  rcases hrest with rfl | rfl <;> simp [limited, pruned, node, pageInfo]

end Selection

/-- The variables of lists and searches are not about fields. -/
def QueryRequest.keepsVariable (r : QueryRequest) (names : List String) (name : String) : Bool :=
  !r.isGet || names.contains name

def Query.limited (r : QueryRequest) (names : List String) (q : Query) : Query where
  operation :=
    { q.operation with
      declared := q.operation.declared.filter fun v => r.keepsVariable names v.1
      roots := q.operation.roots.map (Selection.limited names) }
  values := q.values.filterKeys (r.keepsVariable names)

theorem bind_congr_of_ok {ε α β : Type} {x : Except ε α} {f f' : α → Except ε β}
    (h : ∀ a, x = .ok a → f a = f' a) : (x >>= f) = (x >>= f') := by
  cases x with
  | error _ => rfl
  | ok a => exact h a rfl

/-! Selections -/

def ItemOptions.limited (o : ItemOptions) (names : Option (List String)) : ItemOptions :=
  { o with limitFields := names }

theorem mapM_filter {ε α β : Type} {f : α → Except ε β} {p : α → Bool} {p' : β → Bool}
    {xs : List α} {ys : List β} (h : xs.mapM f = .ok ys) (hp : ∀ x y, f x = .ok y → p x = p' y) :
    (xs.filter p).mapM f = .ok (ys.filter p') := by
  have hrel : ∀ ⦃x y⦄, f x = .ok y → (p x = true ↔ p' y = true) := fun x y hxy => by
    rw [hp x y hxy]
  exact mapM_eq_ok_iff.2 (List.rel_filter hrel (mapM_eq_ok_iff.1 h))

section Items

variable {g : Graph} {o : ItemOptions} {t : TypeDef}

theorem selectedFields_limited (o : ItemOptions) (t : TypeDef) (names : List String) :
    selectedFields (o.limited (some names)) t =
      (selectedFields (o.limited none) t).filter fun f => names.contains f.name := by
  rw [selectedFields, selectedFields, List.filter_filter]
  refine List.filter_congr fun f _ => ?_
  rw [Bool.and_comm]
  simp [ItemOptions.admits, ItemOptions.limited]

theorem selectedFields_limited_congr {names names' : List String}
    (h : ∀ f ∈ selectedFields (o.limited none) t, f.name ∈ names ↔ f.name ∈ names') :
    selectedFields (o.limited (some names)) t = selectedFields (o.limited (some names')) t := by
  rw [selectedFields_limited, selectedFields_limited]
  refine List.filter_congr fun f hf => ?_
  rw [Bool.eq_iff_iff, List.contains_iff_mem, List.contains_iff_mem]
  exact h f hf

theorem itemSelections_limited_congr {names names' : List String}
    (h : ∀ f ∈ selectedFields (o.limited none) t, f.name ∈ names ↔ f.name ∈ names') :
    itemSelections g (o.limited (some names)) t = itemSelections g (o.limited (some names')) t := by
  rw [itemSelections, itemSelections, selectedFields_limited_congr h]
  -- What is selected of a field does not depend on the names.
  rfl

theorem name_of_fieldSelection {f : Field} {s : Selection} (h : fieldSelection g o f = .ok s) :
    s.name = f.name :=
  (shows_of_fieldSelection (fun _ _ => trivial) (fun _ _ _ _ => trivial)
    (trivial : (fun _ => True) f.name) h).name

theorem itemSelections_limited {items : List Selection}
    (h : itemSelections g (o.limited none) t = .ok items) (names : List String) :
    ∃ fields, items = identity ++ fields ∧ (∀ s ∈ fields, s.name ∉ systemFields) ∧
      itemSelections g (o.limited (some names)) t =
        .ok (identity ++ fields.filter fun s => names.contains s.name) := by
  obtain ⟨fields, hfields, h⟩ := bind_eq_ok_iff.1 h
  cases h
  refine ⟨fields, rfl, ?_, ?_⟩
  · refine forall_mem_of_forall₂ (mapM_eq_ok_iff.1 hfields) fun f hf s hs => ?_
    rw [name_of_fieldSelection hs]
    exact Graph.not_mem_systemFields hf
  · rw [itemSelections, selectedFields_limited]
    refine bind_eq_ok_iff.2 ⟨_, mapM_filter hfields fun f s hs => ?_, rfl⟩
    rw [name_of_fieldSelection hs]

end Items

theorem filter_remains {names : List String} {fields : List Selection}
    (h : ∀ s ∈ fields, s.name ∉ systemFields) :
    (identity ++ fields).filter (Selection.remains names) =
      identity ++ fields.filter fun s => names.contains s.name := by
  have hidentity : identity.filter (Selection.remains names) = identity := by
    refine List.filter_eq_self.2 fun s hs => ?_
    have hsystem : s.name ∈ systemFields := List.mem_map_of_mem hs
    rw [Selection.remains, List.contains_iff_mem.2 hsystem, Bool.true_or]
  rw [List.filter_append, hidentity]
  congr 1
  refine List.filter_congr fun s hs => ?_
  rw [Selection.remains, Bool.eq_false_iff.2 (mt List.contains_iff_mem.1 (h s hs)),
    Bool.false_or]

theorem itemSelections_remains {g : Graph} {o : ItemOptions} {t : TypeDef}
    {items : List Selection} (h : itemSelections g (o.limited none) t = .ok items)
    (names : List String) : itemSelections g (o.limited (some names)) t =
      .ok (items.filter (Selection.remains names)) := by
  obtain ⟨fields, rfl, hfields, hlimited⟩ := itemSelections_limited h names
  rw [hlimited, filter_remains hfields]

/-! Variables -/

theorem filterMap_filter_pair {α β : Type} (f : α → Option β) (p : α → Bool) (xs : List α) :
    (xs.filter p).filterMap (fun x => (f x).map fun y => (x, y)) =
      (xs.filterMap fun x => (f x).map fun y => (x, y)).filter fun e => p e.1 := by
  rw [List.filterMap_filter, List.filter_filterMap]
  congr 1
  funext x
  cases f x <;> cases hp : p x <;> simp [Option.filter, hp]

def GetParams.filterEntries {β : Type} (p : GetParams) (names : Option (List String)) (t : TypeDef)
    (entry : Field × Json → β) : List (String × β) :=
  ((selectedFields (p.options.limited names) t).filterMap fun f =>
    (p.nestedFilters.get? f.name).map fun j => (f, j)).map fun e => (e.1.name, entry e)

theorem GetParams.filterEntries_limited {β : Type} (p : GetParams) (t : TypeDef)
    (names : List String) (entry : Field × Json → β) :
    p.filterEntries (some names) t entry =
      (p.filterEntries none t entry).filter fun e => names.contains e.1 := by
  rw [filterEntries, filterEntries, selectedFields_limited, filterMap_filter_pair, List.filter_map]
  rfl

theorem Query.limited_of_not_get {r : QueryRequest} (hr : r.isGet = false) (names : List String)
    (q : Query) : q.limited r names =
      ⟨⟨q.operation.name, q.operation.declared,
        q.operation.roots.map (Selection.limited names)⟩, q.values⟩ := by
  have hkeeps : ∀ name, r.keepsVariable names name = true := fun name => by
    rw [QueryRequest.keepsVariable, hr]
    rfl
  rw [limited, Keyed.filterKeys_eq_self fun name _ => hkeeps name,
    List.filter_eq_self.2 fun v _ => hkeeps v.1]

namespace Graph

variable {g : Graph} (names : List String) {q : Query}

/-! Requests -/

theorem listQuery_limited {p : ListParams}
    (h : g.query ((QueryRequest.list p).limited none) = .ok q) :
    g.query ((QueryRequest.list p).limited (some names)) = .ok (q.limited (.list p) names) := by
  obtain ⟨t, ht, h⟩ := bind_eq_ok_iff.1 h
  obtain ⟨items, hitems, h⟩ := bind_eq_ok_iff.1 h
  cases h
  have hlimited := itemSelections_remains (o := plainOptions none p.nestedLimit) hitems names
  refine bind_eq_ok_iff.2 ⟨t, ht, bind_eq_ok_iff.2 ⟨_, hlimited, ?_⟩⟩
  rw [Query.limited_of_not_get rfl, List.map_singleton, Selection.limited_root _ _ _ _ (.inr rfl)]
  rfl

theorem searchQuery_limited {p : SearchParams}
    (h : g.query ((QueryRequest.search p).limited none) = .ok q) :
    g.query ((QueryRequest.search p).limited (some names)) = .ok (q.limited (.search p) names) := by
  obtain ⟨t, ht, h⟩ := bind_eq_ok_iff.1 h
  obtain ⟨items, hitems, h⟩ := bind_eq_ok_iff.1 h
  cases h
  have hlimited := itemSelections_remains (o := plainOptions none p.nestedLimit) hitems names
  refine bind_eq_ok_iff.2 ⟨t, ht, bind_eq_ok_iff.2 ⟨_, hlimited, ?_⟩⟩
  rw [Query.limited_of_not_get rfl, List.map_singleton, Selection.limited_root _ _ _ _ (.inl rfl)]
  rfl

theorem getQuery_limited {p : GetParams}
    (h : g.query ((QueryRequest.get p).limited none) = .ok q) :
    g.query ((QueryRequest.get p).limited (some names)) = .ok (q.limited (.get p) names) := by
  obtain ⟨t, ht, h⟩ := bind_eq_ok_iff.1 h
  obtain ⟨hchecks, h⟩ := check_bind_eq_ok_iff.1 h
  obtain ⟨items, hitems, h⟩ := bind_eq_ok_iff.1 h
  cases h
  have hlimited := itemSelections_remains (o := p.options) hitems names
  refine bind_eq_ok_iff.2 ⟨t, ht, check_bind_eq_ok_iff.2 ⟨hchecks,
    bind_eq_ok_iff.2 ⟨_, hlimited, congrArg Except.ok ?_⟩⟩⟩
  have hdeclared := p.filterEntries_limited t names fun e =>
    Sdl.TypeRef.named (OperationKind.list.filterTypeName e.1.type.name) false
  have hvalues := p.filterEntries_limited t names Prod.snd
  rw [Query.limited, List.map_singleton, Selection.limited_root _ _ _ _ (.inl rfl)]
  refine congr (congrArg Query.mk (congrArg (Operation.mk _ · _) hdeclared)) ?_
  exact (congrArg Keyed.ofList hvalues).trans (Keyed.ofList_filter _ _)

/-! Names -/

theorem query_limited_congr (r : QueryRequest) {names names' : List String}
    (h : ∀ f ∈ g.requested (r.limited none), f.name ∈ names ↔ f.name ∈ names') :
    g.query (r.limited (some names)) = g.query (r.limited (some names')) := by
  cases r with
  | list p =>
    refine bind_congr_of_ok fun t ht => ?_
    rw [requested_eq rfl (target_eq_ok_iff.1 ht)] at h
    have hitems := itemSelections_limited_congr (g := g) (o := plainOptions none p.nestedLimit) h
    exact congrArg (· >>= _) hitems
  | get p =>
    refine bind_congr_of_ok fun t ht => bind_congr_of_ok fun _ _ => ?_
    rw [requested_eq rfl (target_eq_ok_iff.1 ht)] at h
    have hitems := itemSelections_limited_congr (g := g) (o := p.options) h
    have hentries : ∀ {β : Type} (entry : Field × Json → β),
        p.filterEntries (some names) t entry = p.filterEntries (some names') t entry := by
      intro β entry
      rw [GetParams.filterEntries, selectedFields_limited_congr (o := p.options) h]
      rfl
    refine congr (congrArg bind hitems) (funext fun items => congrArg Except.ok ?_)
    exact congr (congrArg Query.mk (congrArg (Operation.mk _ · _) (hentries _)))
      (congrArg Keyed.ofList (hentries _))
  | search p =>
    refine bind_congr_of_ok fun t ht => ?_
    rw [requested_eq rfl (target_eq_ok_iff.1 ht)] at h
    have hitems := itemSelections_limited_congr (g := g) (o := plainOptions none p.nestedLimit) h
    exact congrArg (· >>= _) hitems
  | aggregate typeName => rfl
  | rowCount typeNames => rfl

theorem items_limited {r : QueryRequest} {typeName : String} {o : ItemOptions}
    (hnone : (r.limited none).instances? = some (typeName, o.limited none))
    (hsome : (r.limited (some names)).instances? = some (typeName, o.limited (some names)))
    {q' : Query} (h : g.query (r.limited none) = .ok q)
    (h' : g.query (r.limited (some names)) = .ok q') :
    ∃ fields, q.items = identity ++ fields ∧
      q'.items = identity ++ fields.filter fun s => names.contains s.name := by
  obtain ⟨t, items, hq⟩ := exists_presents hnone h
  obtain ⟨t', items', hq'⟩ := exists_presents hsome h'
  obtain rfl := Option.some.inj (hq.type.symm.trans hq'.type)
  obtain ⟨fields, rfl, -, hlimited⟩ := itemSelections_limited hq.selected names
  exact ⟨fields, hq.items_eq, hq'.items_eq.trans (Except.ok.inj (hq'.selected.symm.trans hlimited))⟩

/-- Naming the fields to select filters the selections of the instances, and only their names that
are names of declared fields count. -/
theorem query_limited (g : Graph) {r : QueryRequest} (hr : r.instances?.isSome = true) :
    (∀ names q, g.query (r.limited none) = .ok q →
      g.query (r.limited (some names)) = .ok (q.limited r names) ∧
        ∃ fields, q.items = identity ++ fields ∧
          (q.limited r names).items = identity ++ fields.filter fun s => names.contains s.name) ∧
      ∀ names names', (∀ f ∈ g.requested (r.limited none), f.name ∈ names ↔ f.name ∈ names') →
        g.query (r.limited (some names)) = g.query (r.limited (some names')) := by
  refine ⟨fun names q h => ?_, fun names names' h => query_limited_congr r h⟩
  cases r with
  | list p =>
    have hlimited := listQuery_limited names h
    exact ⟨hlimited, items_limited names (o := plainOptions none p.nestedLimit) rfl rfl h hlimited⟩
  | get p =>
    have hlimited := getQuery_limited names h
    exact ⟨hlimited, items_limited names (o := p.options) rfl rfl h hlimited⟩
  | search p =>
    have hlimited := searchQuery_limited names h
    exact ⟨hlimited, items_limited names (o := plainOptions none p.nestedLimit) rfl rfl h hlimited⟩
  | aggregate _ => cases hr
  | rowCount _ => cases hr

/-- Filters for two lists, one of which is not selected. The names of no field and of a field that
every instance has make no difference. -/
theorem query_limited_of_post :
    let post := (((TypeDef.make "Post" .object).withField
      (.make "title" (.make "String" false false))).withField
        (.make "related" (.make "Post" true false))).withField
          (.make "replies" (.make "Post" true false))
    let g : Graph := ⟨Keyed.ofList [("Post", post)]⟩
    let r : QueryRequest := .get ⟨"first", none, ∅,
      Keyed.ofList [("replies", .null), ("related", .int 1)], 2, "blog", "Post"⟩
    let names := ["replies", "ghost", "space", "title", "replies"]
    ∃ q q', g.query (r.limited none) = .ok q ∧ g.query (r.limited (some names)) = .ok q' ∧
      g.query (r.limited (some ["title", "replies"])) = .ok q' ∧ q' = q.limited r names ∧
      q.operation.declaredNames = ["related", "replies"] ∧
      q'.operation.declaredNames = ["replies"] ∧ q'.values.keys = ["replies"] ∧
      q'.items.map Selection.name = systemFields ++ ["title", "replies"] := by
  intro post g r names
  obtain ⟨q, hquery⟩ : ∃ q, g.query (r.limited none) = .ok q := ⟨_, rfl⟩
  obtain ⟨hlimits, hsame⟩ := query_limited g (r := r) rfl
  have hnames : ∀ f ∈ g.requested (r.limited none),
      f.name ∈ ["title", "replies"] ↔ f.name ∈ names := by decide +kernel
  have hlimited := (hlimits names q hquery).1
  refine ⟨q, _, hquery, hlimited, (hsame _ _ hnames).trans hlimited, rfl, ?_⟩
  cases hquery
  decide +kernel

end Graph

end SchemaGraph
