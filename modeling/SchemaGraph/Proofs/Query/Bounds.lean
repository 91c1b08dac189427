import SchemaGraph.Proofs.Query.Shapes

/-! How far a document goes. Types may lead to one another in circles, but a relation only shows
what identifies the instances it leads to, and values in place are two deep at most. So there is a
bound for all graphs, and side by side every name stands once. -/

namespace SchemaGraph

namespace Selection

inductive NoTwins : Selection → Prop
  | field {name : String} {as : List (String × Sdl.Value)} {cs : List Selection}
      (hnames : (cs.map Selection.name).Nodup) (hchildren : ∀ c ∈ cs, NoTwins c) :
      NoTwins (.field name as cs)

mutual

def depth : Selection → Nat
  | .field _ _ cs => depthAll cs + 1

def depthAll : List Selection → Nat
  | [] => 0
  | c :: cs => max c.depth (depthAll cs)

end

theorem depthAll_le {n : Nat} {cs : List Selection} (h : ∀ c ∈ cs, c.depth ≤ n) :
    depthAll cs ≤ n := by
  induction cs with
  | nil => exact Nat.zero_le n
  | cons c cs ih =>
    obtain ⟨hc, hcs⟩ := List.forall_mem_cons.1 h
    rw [depthAll, Nat.max_le]
    exact ⟨hc, ih hcs⟩

theorem depth_field_le {name : String} {as : List (String × Sdl.Value)} {n : Nat}
    {cs : List Selection} (h : ∀ c ∈ cs, c.depth ≤ n) : (field name as cs).depth ≤ n + 1 := by
  rw [depth]
  exact Nat.succ_le_succ (depthAll_le h)

theorem noTwins_leaf (name : String) : (leaf name).NoTwins :=
  .field List.nodup_nil fun _ hc => absurd hc List.not_mem_nil

theorem noTwins_leaves (names : List String) : ∀ c ∈ leaves names, c.NoTwins :=
  List.forall_mem_map.2 fun name _ => noTwins_leaf name

theorem depth_leaves (names : List String) : ∀ c ∈ leaves names, c.depth ≤ 1 :=
  List.forall_mem_map.2 fun _ _ => Nat.le_refl 1

end Selection

open Selection

/-! Selections -/

theorem noTwins_identity (name : String) : (node name identity).NoTwins :=
  .field (by decide) (noTwins_leaves systemFields)

theorem noTwins_pageInfo : pageInfo.NoTwins := .field (by decide) (noTwins_leaves pageInfoFields)

theorem noTwins_plainSelection (f : Field) : (plainSelection f).NoTwins := by
  unfold plainSelection
  split
  · exact .field (List.nodup_singleton _) (List.forall_mem_singleton.2 (noTwins_leaf _))
  · split
    · exact noTwins_identity f.name
    · exact noTwins_leaf f.name

theorem depth_plainSelection_le (f : Field) : (plainSelection f).depth ≤ 2 := by
  unfold plainSelection
  split
  · exact Nat.le_refl 2
  · split
    · exact Nat.le_refl 2
    · exact Nat.le_succ 1

theorem noTwins_relationList (o : ItemOptions) (f : Field) : (relationList o f).NoTwins := by
  unfold relationList
  cases o.nestedPageInfo with
  | true => exact .field (by decide) (List.forall_mem_cons.2
      ⟨noTwins_identity _, List.forall_mem_singleton.2 noTwins_pageInfo⟩)
  | false => exact .field (by decide) (List.forall_mem_singleton.2 (noTwins_identity _))

theorem depth_relationList_le (o : ItemOptions) (f : Field) : (relationList o f).depth ≤ 3 := by
  unfold relationList
  cases o.nestedPageInfo <;> exact Nat.le_refl 3

namespace Graph

variable {g : Graph} {f : Field}

theorem depth_shownWithin_le {levels : Nat} {s : Selection}
    (h : g.shownWithin levels f = some s) : s.depth ≤ levels + 2 := by
  refine shownWithin_induction (P := fun levels s => s.depth ≤ levels + 2) ?_ ?_ h
  · exact fun levels f => Nat.le_trans (depth_plainSelection_le f) (Nat.le_add_left 2 levels)
  · exact fun _ _ _ _ hchildren => depth_field_le hchildren

theorem depth_shape_le (o : ItemOptions) (f : Field) : (g.shape o f).depth ≤ 4 := by
  cases h : g.pages f with
  | true =>
    rw [shape_of_pages o h]
    exact Nat.le_trans (depth_relationList_le o f) (Nat.le_succ 3)
  | false => exact depth_shownWithin_le (shownWithin_two o h)

section Rules

variable (hrules : g.violations = [])
include hrules

theorem noTwins_shownWithin {levels : Nat} {s : Selection}
    (h : g.shownWithin levels f = some s) : s.NoTwins := by
  refine shownWithin_induction (P := fun _ s => s.NoTwins) ?_ ?_ h
  · exact fun _ f => noTwins_plainSelection f
  · intro levels f t ht hchildren
    obtain ⟨htype, -⟩ := Option.filter_eq_some_iff.1 (inlineTarget_of_embedded ht).2
    refine .field ?_ hchildren
    rw [map_name_filterMap]
    exact (nodup_field_names hrules htype).sublist (List.filter_sublist.map _)

theorem noTwins_shape (o : ItemOptions) (f : Field) : (g.shape o f).NoTwins := by
  cases h : g.pages f with
  | true => exact shape_of_pages o h ▸ noTwins_relationList o f
  | false => exact noTwins_shownWithin hrules (shownWithin_two o h)

theorem noTwins_items {typeName : String} {t : TypeDef} (ht : g.type? typeName = some t)
    (o : ItemOptions) :
    (node "items" (identity ++ (selectedFields o t).map (g.shape o))).NoTwins := by
  refine .field ?_ (List.forall_mem_append.2
    ⟨noTwins_leaves systemFields, List.forall_mem_map.2 fun f _ => noTwins_shape hrules o f⟩)
  have hnames : ((selectedFields o t).map (g.shape o)).map Selection.name =
      (selectedFields o t).map Field.name := by
    rw [List.map_map]
    exact List.map_congr_left fun f _ => name_shape o f
  rw [List.map_append, hnames]
  exact nodup_all_names hrules ht o

end Rules

theorem depth_items_le (o : ItemOptions) (t : TypeDef) :
    (node "items" (identity ++ (selectedFields o t).map (g.shape o))).depth ≤ 5 := by
  refine depth_field_le (List.forall_mem_append.2
    ⟨fun c hc => ?_, List.forall_mem_map.2 fun f _ => depth_shape_le o f⟩)
  exact Nat.le_trans (depth_leaves systemFields c hc) (by decide)

/-! Requests -/

/-- What the query for a request looks like, whatever types there are and wherever they lead. -/
structure Bounded (g : Graph) (r : QueryRequest) (limitFields : Option (List String))
    (t : TypeDef) (q : Query) : Prop where
  items : ∃ fields, q.items = identity ++ fields ∧
    fields.map Selection.name = t.fields.keys.filter fun name =>
      !systemFields.contains name && limitFields.all fun names => names.contains name
  names : (q.operation.roots.map Selection.name).Nodup ∧ ∀ s ∈ q.operation.roots, s.NoTwins
  relations : ∀ n f s, g.Shown (g.requested r) q.items n f s → f.isRelation = true →
    g.inlineTarget? f = none → s.children =
      if f.type.isList then node "items" identity :: (if r.isGet then [pageInfo] else [])
      else identity
  values : ∀ n f s t, g.Shown (g.requested r) q.items n f s → g.embedded? f = some t →
    s.children.map Selection.name =
      (t.fields.values.filter fun a => n = 0 || (g.embedded? a).isNone).map Field.name
  nesting : ∀ n f s, g.Shown (g.requested r) q.items n f s →
    n ≤ 2 ∧ (n = 2 → g.embedded? f = none)
  depth : ∀ s ∈ q.operation.roots, s.depth ≤ 6

variable {g : Graph} {r : QueryRequest} {typeName : String} {o : ItemOptions} {t : TypeDef}

theorem nestedPageInfo_eq (hr : r.instances? = some (typeName, o)) :
    o.nestedPageInfo = r.isGet := by
  cases r <;> cases hr <;> rfl

section Rules

variable (hrules : g.violations = []) (ht : g.type? typeName = some t)
include hrules ht

theorem map_name_selectedFields : (selectedFields o t).map Field.name =
    t.fields.keys.filter fun name =>
      !systemFields.contains name && o.limitFields.all fun names => names.contains name := by
  rw [← (keys_eq_names hrules ht).map_values, List.filter_map]
  rfl

theorem children_of_relation {n : Nat} {f : Field} {s : Selection}
    (h : g.Shown (selectedFields o t) (identity ++ (selectedFields o t).map (g.shape o)) n f s)
    (hrelation : f.isRelation = true) (hnone : g.inlineTarget? f = none) : s.children =
      if f.type.isList then node "items" identity :: (if o.nestedPageInfo then [pageInfo] else [])
      else identity := by
  have hpages : g.pages f = f.type.isList := by simp [pages, hrelation, hnone]
  have hembedded : g.embedded? f = none := by simp [embedded?, hnone]
  obtain ⟨-, hs⟩ := h.within hrules ht
  rw [hpages, shownWithin_of_none hembedded] at hs
  cases hlist : f.type.isList with
  | true =>
    rw [if_pos hlist] at hs
    rw [hs]
    rfl
  | false =>
    rw [Field.isRelation, Bool.and_eq_true, Bool.not_eq_true'] at hrelation
    rw [hlist, if_neg Bool.false_ne_true] at hs
    have hplain : plainSelection f = node f.name identity := by
      simp [plainSelection, hrelation]
    rw [← Option.some.inj hs, hplain]
    rfl

theorem names_of_values {n : Nat} {f : Field} {s : Selection} {u : TypeDef}
    (h : g.Shown (selectedFields o t) (identity ++ (selectedFields o t).map (g.shape o)) n f s)
    (hu : g.embedded? f = some u) : s.children.map Selection.name =
      (u.fields.values.filter fun a => n = 0 || (g.embedded? a).isNone).map Field.name := by
  obtain ⟨below, hroom, rfl⟩ := h.room hrules ht hu
  have hfits : g.fits below = fun a => n = 0 || (g.embedded? a).isNone := by
    funext a
    have hbelow : below ≠ 0 ↔ n = 0 := by omega
    simp only [fits, hbelow]
  rw [← hfits]
  exact map_name_filterMap below u.fields.values

theorem nesting_of_shown {n : Nat} {f : Field} {s : Selection}
    (h : g.Shown (selectedFields o t) (identity ++ (selectedFields o t).map (g.shape o)) n f s) :
    n ≤ 2 ∧ (n = 2 → g.embedded? f = none) := by
  refine ⟨(h.within hrules ht).1, ?_⟩
  rintro rfl
  refine Option.eq_none_iff_forall_ne_some.2 fun u hu => ?_
  obtain ⟨below, hroom, -⟩ := h.room hrules ht hu
  cases hroom

theorem names_and_depth_of_root (name : String) (as : List (String × Sdl.Value))
    {rest : List Selection} (hrest : rest = [] ∨ rest = [pageInfo]) :
    let root := field name as
      (node "items" (identity ++ (selectedFields o t).map (g.shape o)) :: rest)
    root.NoTwins ∧ root.depth ≤ 6 := by
  have htwins := noTwins_items hrules ht o
  have hdepth := depth_items_le (g := g) o t
  have hpages : ∀ c ∈ rest, c.NoTwins ∧ c.depth ≤ 5 := by
    rcases hrest with rfl | rfl
    · exact fun _ hc => absurd hc List.not_mem_nil
    · exact List.forall_mem_singleton.2 ⟨noTwins_pageInfo, by decide⟩
  constructor
  · refine .field ?_ (List.forall_mem_cons.2 ⟨htwins, fun c hc => (hpages c hc).1⟩)
    rcases hrest with rfl | rfl
    · exact List.nodup_singleton "items"
    · exact (by decide : ["items", "pageInfo"].Nodup)
  · exact depth_field_le (List.forall_mem_cons.2 ⟨hdepth, fun c hc => (hpages c hc).2⟩)

end Rules

/-- There is no need for the types of a graph to lead to an end. -/
theorem bounded_of_query (hrules : g.violations = []) (hr : r.instances? = some (typeName, o))
    {q : Query} (hquery : g.query r = .ok q) :
    ∃ t, g.type? typeName = some t ∧ g.Bounded r o.limitFields t q := by
  obtain ⟨t, items, hq⟩ := exists_presents hr hquery
  have ht := hq.type
  have hitems := hq.items_eq_shapes hrules
  have hrequested := requested_eq hr ht
  obtain ⟨name, as, rest, hroot, hrest⟩ := hq.root
  rw [← hq.items_eq, hitems] at hroot
  obtain ⟨htwins, hdepth⟩ := names_and_depth_of_root hrules ht name as hrest
  refine ⟨t, ht, ?_⟩
  constructor
  · refine ⟨_, hitems, ?_⟩
    rw [← map_name_selectedFields hrules ht, List.map_map]
    exact List.map_congr_left fun f _ => name_shape o f
  · rw [hroot]
    exact ⟨List.nodup_singleton _, List.forall_mem_singleton.2 htwins⟩
  · intro n f s h hrelation hnone
    rw [hrequested, hitems] at h
    rw [← nestedPageInfo_eq hr]
    exact children_of_relation hrules ht h hrelation hnone
  · intro n f s u h hu
    rw [hrequested, hitems] at h
    exact names_of_values hrules ht h hu
  · intro n f s h
    rw [hrequested, hitems] at h
    exact nesting_of_shown hrules ht h
  · rw [hroot]
    exact List.forall_mem_singleton.2 hdepth

/-- An author and a book that show each other in place, and a page that lists itself. The longest
way down is as long as any can be. -/
theorem bounded_of_circular_page :
    let author := ((TypeDef.make "Author" .object).withDirective (.named "inline" ∅)).withField
      (.make "book" (.make "Book" false false))
    let book := (((TypeDef.make "Book" .object).withDirective (.named "inline" ∅)).withField
      (.make "author" (.make "Author" false false))).withField
        (.make "page" (.make "Page" false false))
    let page := (((TypeDef.make "Page" .object).withField
      (.make "space" (.make "String" false false))).withField
        (.make "author" (.make "Author" false false))).withField
          (.make "links" (.make "Page" true false))
    let g : Graph := ⟨Keyed.ofList [("Author", author), ("Book", book), ("Page", page)]⟩
    let r : QueryRequest := .get ⟨"home", none, ∅, ∅, 2, "site", "Page"⟩
    ∃ q, g.violations = [] ∧ g.query r = .ok q ∧
      (∃ t, g.type? "Page" = some t ∧ g.Bounded r none t q) ∧
        q.operation.roots.map depth = [6] := by
  intro author book page g r
  have hrules : g.violations = [] := by decide +kernel
  obtain ⟨q, hquery⟩ : ∃ q, g.query r = .ok q := ⟨_, rfl⟩
  refine ⟨q, hrules, hquery, bounded_of_query hrules rfl hquery, ?_⟩
  cases hquery
  rfl

end Graph

end SchemaGraph
