import SchemaGraph.Proofs.Query.Requests

/-! Which requests get a query. On a graph that keeps the rules nothing stands in the way but the
request itself: the values of every inline type can be shown in place, whatever types of that kind
lead to one another. -/

namespace SchemaGraph

section Traversal

variable {ε α β : Type} {e : ε}

theorem bind_eq_error_iff {x : Except ε α} {f : α → Except ε β} :
    (x >>= f) = .error e ↔ x = .error e ∨ ∃ a, x = .ok a ∧ f a = .error e := by
  cases x with
  | error err =>
    constructor
    · intro h
      cases h
      exact .inl rfl
    · rintro (h | ⟨_, h, -⟩)
      · cases h
        rfl
      · cases h
  | ok a =>
    constructor
    · intro h
      exact .inr ⟨a, rfl, h⟩
    · rintro (h | ⟨_, h, hf⟩)
      · cases h
      · cases h
        exact hf

variable {f : α → Except ε β} {xs : List α}

theorem exists_mapM_eq_ok (h : ∀ x ∈ xs, ∃ y, f x = .ok y) : ∃ ys, xs.mapM f = .ok ys := by
  induction xs with
  | nil => exact ⟨[], rfl⟩
  | cons x xs ih =>
    obtain ⟨y, hy⟩ := h x List.mem_cons_self
    obtain ⟨ys, hys⟩ := ih fun z hz => h z (List.mem_cons_of_mem _ hz)
    exact ⟨y :: ys, mapM_eq_ok_iff.2 (.cons hy (mapM_eq_ok_iff.1 hys))⟩

theorem exists_of_mapM_eq_error (h : xs.mapM f = .error e) : ∃ x ∈ xs, f x = .error e := by
  induction xs with
  | nil => cases h
  | cons x xs ih =>
    rw [List.mapM_cons] at h
    rcases bind_eq_error_iff.1 h with hx | ⟨y, -, h⟩
    · exact ⟨x, List.mem_cons_self, hx⟩
    · rcases bind_eq_error_iff.1 h with hxs | ⟨ys, -, h⟩
      · obtain ⟨z, hz, hfz⟩ := ih hxs
        exact ⟨z, List.mem_cons_of_mem _ hz, hfz⟩
      · cases h

theorem exists_of_forM_eq_error {check : α → Except ε Unit} (h : forM xs check = .error e) :
    ∃ x ∈ xs, check x = .error e := by
  induction xs with
  | nil => cases h
  | cons x xs ih =>
    rw [List.forM_cons] at h
    rcases bind_eq_error_iff.1 h with hx | ⟨_, -, hxs⟩
    · exact ⟨x, List.mem_cons_self, hx⟩
    · obtain ⟨z, hz, hfz⟩ := ih hxs
      exact ⟨z, List.mem_cons_of_mem _ hz, hfz⟩

end Traversal

/-! Selections -/

/-- No field is a list of related instances, so that all values can be shown in place. -/
def TypeDef.Embeddable (t : TypeDef) : Prop :=
  ∀ f ∈ t.fields.values, (f.isRelation && f.type.isList) = false

section Rules

variable {g : Graph} (hrules : g.violations = [])
include hrules

theorem Graph.embeddable_inlineTarget {f : Field} {t : TypeDef} (h : g.inlineTarget? f = some t) :
    t.Embeddable := by
  obtain ⟨htype, hinline⟩ := Option.filter_eq_some_iff.1 h
  intro a ha
  have hfields := (((violations_eq_nil_iff g).1 hrules).get? htype).2
  have hrule := (hfields.imp fun _ _ hf => hf.2.2).of_mem_values a ha
  rwa [hinline, Bool.true_and] at hrule

theorem exists_inlineField {expand : Field → TypeDef → Except QueryError (Option Selection)}
    (hexpand : ∀ f t, t.Embeddable → ∃ s, expand f t = .ok s) (f : Field) :
    ∃ s, inlineField g expand f = .ok s := by
  unfold inlineField
  split
  · exact ⟨_, rfl⟩
  · split
    · exact ⟨_, rfl⟩
    · split
      · rename_i t ht
        exact hexpand f t (Graph.embeddable_inlineTarget hrules ht)
      · exact ⟨_, rfl⟩

theorem exists_inlineWith {expand : Field → TypeDef → Except QueryError (Option Selection)}
    (hexpand : ∀ f t, t.Embeddable → ∃ s, expand f t = .ok s) (f : Field) {t : TypeDef}
    (ht : t.Embeddable) : ∃ s, inlineWith g expand f t = .ok s := by
  have hnone : (t.fields.values.find? fun f => f.isRelation && f.type.isList) = none := by
    rw [List.find?_eq_none]
    intro a ha
    rw [ht a ha]
    exact Bool.false_ne_true
  have hfields : ∀ a ∈ t.fields.values, ∃ s, inlineField g expand a = .ok s := fun a _ =>
    exists_inlineField hrules hexpand a
  obtain ⟨children, hchildren⟩ := exists_mapM_eq_ok hfields
  refine ⟨.node f.name (children.filterMap id), ?_⟩
  unfold inlineWith
  rw [hnone]
  exact bind_eq_ok_iff.2 ⟨children, hchildren, rfl⟩

theorem exists_inlineSelection (levels : Nat) (f : Field) {t : TypeDef} (ht : t.Embeddable) :
    ∃ s, inlineSelection g levels f t = .ok s := by
  induction levels generalizing f t with
  | zero => exact exists_inlineWith hrules (fun _ _ _ => ⟨none, rfl⟩) f ht
  | succ levels ih =>
    refine exists_inlineWith hrules (fun a u hu => ?_) f ht
    obtain ⟨s, hs⟩ := ih a hu
    refine ⟨some s, ?_⟩
    rw [hs]
    rfl

theorem exists_fieldSelection (o : ItemOptions) (f : Field) :
    ∃ s, fieldSelection g o f = .ok s := by
  unfold fieldSelection
  split
  · exact ⟨_, rfl⟩
  · split
    · exact ⟨_, rfl⟩
    · split
      · rename_i t ht
        exact exists_inlineSelection hrules 1 f (Graph.embeddable_inlineTarget hrules ht)
      · split
        · exact ⟨_, rfl⟩
        · exact ⟨_, rfl⟩

theorem exists_itemSelections (o : ItemOptions) (t : TypeDef) :
    ∃ items, itemSelections g o t = .ok items := by
  have hfields : ∀ f ∈ selectedFields o t, ∃ s, fieldSelection g o f = .ok s := fun f _ =>
    exists_fieldSelection hrules o f
  obtain ⟨fields, hselected⟩ := exists_mapM_eq_ok hfields
  exact ⟨identity ++ fields, bind_eq_ok_iff.2 ⟨fields, hselected, rfl⟩⟩

end Rules

/-! Requests -/

def TypeDef.ListsRelated (t : TypeDef) (fieldName : String) : Prop :=
  ∃ f, t.field? fieldName = some f ∧ f.isRelation = true ∧ f.type.isList = true

namespace QueryRequest

def typeNames : QueryRequest → List String
  | .list p => [p.typeName]
  | .get p => [p.typeName]
  | .search p => [p.typeName]
  | .aggregate typeName => [typeName]
  | .rowCount typeNames => typeNames

def nestedNames : QueryRequest → List String
  | .get p => p.nestedCursors.keys ++ p.nestedFilters.keys
  | _ => []

end QueryRequest

namespace Graph

/-- There is something to ask for, the graph has it, and what is asked of fields is asked of lists
of related instances. -/
structure Answerable (g : Graph) (r : QueryRequest) : Prop where
  asks : r.typeNames ≠ []
  known : ∀ name ∈ r.typeNames, name ∈ g.typeNames
  nested : ∀ typeName ∈ r.typeNames, ∀ t, g.type? typeName = some t →
    ∀ name ∈ r.nestedNames, t.ListsRelated name

/-- What a complaint about a request says is so. -/
def Complaint (g : Graph) (r : QueryRequest) : QueryError → Prop
  | .unknownType name => name ∈ r.typeNames ∧ name ∉ g.typeNames
  | .noTypesRequested => r.typeNames = []
  | .invalidNestedArgument fieldName typeName => fieldName ∈ r.nestedNames ∧
      ∃ t, g.type? typeName = some t ∧ typeName ∈ r.typeNames ∧ ¬t.ListsRelated fieldName
  | .inlineTypeWithRelationList _ _ => False

theorem target_eq_error_iff {g : Graph} {typeName : String} {e : QueryError} :
    g.target typeName = .error e ↔ typeName ∉ g.typeNames ∧ e = .unknownType typeName := by
  have hkeys : (g.type? typeName).isSome = true ↔ typeName ∈ g.typeNames :=
    Keyed.contains_iff_mem_keys g.types typeName
  unfold target
  rw [← hkeys]
  rcases g.type? typeName with _ | t <;> simp [eq_comm]

theorem checkNested_eq_error {t : TypeDef} {fieldName : String} {e : QueryError}
    (h : checkNested t fieldName = .error e) :
    ¬t.ListsRelated fieldName ∧ e = .invalidNestedArgument fieldName t.name := by
  refine ⟨fun hlists => ?_, ?_⟩
  · rw [checkNested_eq_ok_iff.2 hlists] at h
    cases h
  · unfold checkNested at h
    split at h
    · split at h
      · cases h
      · cases h
        rfl
    · cases h
      rfl

theorem mem_typeNames_iff {g : Graph} {name : String} :
    name ∈ g.typeNames ↔ ∃ t, g.type? name = some t := by
  rw [type?_isSome_iff]
  exact (Keyed.contains_iff_mem_keys g.types name).symm

variable {g : Graph}

theorem Complaint.not_answerable {r : QueryRequest} {e : QueryError} (h : g.Complaint r e) :
    ¬g.Answerable r := by
  intro hr
  cases e with
  | unknownType name => exact h.2 (hr.known name h.1)
  | noTypesRequested => exact hr.asks h
  | invalidNestedArgument fieldName typeName =>
    obtain ⟨hfield, t, ht, htype, hlists⟩ := h
    exact hlists (hr.nested typeName htype t ht fieldName hfield)
  | inlineTypeWithRelationList _ _ => exact h

theorem answerable_of_query {r : QueryRequest} {q : Query} (h : g.query r = .ok q) :
    g.Answerable r := by
  have hknown : ∀ {name : String} {finish : TypeDef → Except QueryError Query},
      g.target name >>= finish = .ok q → ∀ n ∈ [name], n ∈ g.typeNames := by
    intro name finish h
    obtain ⟨t, ht, -⟩ := bind_eq_ok_iff.1 h
    exact List.forall_mem_singleton.2 (mem_typeNames_iff.2 ⟨t, target_eq_ok_iff.1 ht⟩)
  have hnone : ∀ typeName ∈ r.typeNames, ∀ t, g.type? typeName = some t →
      ∀ name ∈ ([] : List String), t.ListsRelated name :=
    fun _ _ _ _ _ hn => absurd hn List.not_mem_nil
  cases r with
  | list p => exact ⟨List.cons_ne_nil _ _, hknown h, hnone⟩
  | search p => exact ⟨List.cons_ne_nil _ _, hknown h, hnone⟩
  | aggregate name => exact ⟨List.cons_ne_nil _ _, hknown h, hnone⟩
  | get p =>
    obtain ⟨t, items, hq⟩ := exists_answers_of_getQuery h
    refine ⟨List.cons_ne_nil _ _, hknown h, List.forall_mem_singleton.2 fun u hu => ?_⟩
    obtain rfl : t = u := Option.some.inj (hq.type.symm.trans hu)
    exact hq.nested
  | rowCount names =>
    change g.rowCountQuery names = .ok q at h
    unfold rowCountQuery at h
    split at h
    · cases h
    · rename_i hne
      obtain ⟨ts, hts, -⟩ := bind_eq_ok_iff.1 h
      refine ⟨fun hnil => hne (List.isEmpty_iff.2 hnil), fun name hname => ?_, hnone⟩
      obtain ⟨t, -, ht⟩ := exists_of_forall₂ (mapM_eq_ok_iff.1 hts) hname
      exact mem_typeNames_iff.2 ⟨t, target_eq_ok_iff.1 ht⟩

theorem complaint_rowCount {names : List String} {e : QueryError}
    (h : g.rowCountQuery names = .error e) : g.Complaint (.rowCount names) e := by
  unfold rowCountQuery at h
  split at h
  · rename_i hnil
    cases h
    exact List.isEmpty_iff.1 hnil
  · rcases bind_eq_error_iff.1 h with h | ⟨_, -, h⟩
    · obtain ⟨name, hname, h⟩ := exists_of_mapM_eq_error h
      obtain ⟨hunknown, rfl⟩ := target_eq_error_iff.1 h
      exact ⟨hname, hunknown⟩
    · cases h

section Rules

variable (hrules : g.violations = [])
include hrules

theorem unknown_of_error {typeName : String} {o : ItemOptions}
    {finish : TypeDef → List Selection → Query} {e : QueryError}
    (h : (g.target typeName >>= fun t =>
      itemSelections g o t >>= fun items => pure (finish t items)) = .error e) :
    typeName ∉ g.typeNames ∧ e = .unknownType typeName := by
  rcases bind_eq_error_iff.1 h with h | ⟨t, -, h⟩
  · exact target_eq_error_iff.1 h
  · obtain ⟨items, hitems⟩ := exists_itemSelections hrules o t
    rw [hitems] at h
    cases h

theorem complaint_get {p : GetParams} {e : QueryError} (h : g.getQuery p = .error e) :
    g.Complaint (.get p) e := by
  rcases bind_eq_error_iff.1 h with h | ⟨t, ht, h⟩
  · obtain ⟨hunknown, rfl⟩ := target_eq_error_iff.1 h
    exact ⟨List.mem_singleton_self _, hunknown⟩
  · have ht : g.type? p.typeName = some t := target_eq_ok_iff.1 ht
    have hkey : p.typeName = t.name := (type_keys_of_rules hrules).get? ht
    rcases bind_eq_error_iff.1 h with h | ⟨_, -, h⟩
    · obtain ⟨fieldName, hfield, h⟩ := exists_of_forM_eq_error h
      obtain ⟨hlists, rfl⟩ := checkNested_eq_error h
      exact ⟨hfield, t, hkey ▸ ht, hkey ▸ List.mem_singleton_self _, hlists⟩
    · obtain ⟨items, hitems⟩ := exists_itemSelections hrules p.options t
      rcases bind_eq_error_iff.1 h with h | ⟨_, -, h⟩
      · exact absurd (hitems.symm.trans h) (by simp)
      · cases h

theorem complaint_query {r : QueryRequest} {e : QueryError} (h : g.query r = .error e) :
    g.Complaint r e := by
  cases r with
  | list p =>
    obtain ⟨hunknown, rfl⟩ := unknown_of_error hrules h
    exact ⟨List.mem_singleton_self _, hunknown⟩
  | search p =>
    obtain ⟨hunknown, rfl⟩ := unknown_of_error hrules h
    exact ⟨List.mem_singleton_self _, hunknown⟩
  | aggregate typeName =>
    rcases bind_eq_error_iff.1 h with h | ⟨t, -, h⟩
    · obtain ⟨hunknown, rfl⟩ := target_eq_error_iff.1 h
      exact ⟨List.mem_singleton_self _, hunknown⟩
    · cases h
  | get p => exact complaint_get hrules h
  | rowCount names => exact complaint_rowCount h

/-- Requests fail for the reasons above and no other: an inline type never stands in the way. -/
theorem query_fails_iff (r : QueryRequest) :
    ((∃ e, g.query r = .error e) ↔ ¬g.Answerable r) ∧
      ∀ e, g.query r = .error e → g.Complaint r e := by
  refine ⟨⟨?_, fun hr => ?_⟩, fun e => complaint_query hrules⟩
  · rintro ⟨e, he⟩
    exact (complaint_query hrules he).not_answerable
  · rcases hq : g.query r with e | q
    · exact ⟨e, rfl⟩
    · exact absurd (answerable_of_query hq) hr

end Rules

/-- Two inline types that hold each other, and a page that lists related pages; asking for the list
of an inline type to be filtered is a mistake in the request. -/
theorem query_fails_on_inline_authors :
    let author := ((TypeDef.make "Author" .object).withDirective (.named "inline" ∅)).withField
      (.make "book" (.make "Book" false false))
    let book := ((TypeDef.make "Book" .object).withDirective (.named "inline" ∅)).withField
      (.make "author" (.make "Author" false false))
    let page := ((TypeDef.make "Page" .object).withField
      (.make "author" (.make "Author" false false))).withField
        (.make "links" (.make "Page" true false))
    let g : Graph := ⟨Keyed.ofList [("Author", author), ("Book", book), ("Page", page)]⟩
    let r : QueryRequest :=
      .get ⟨"home", none, ∅, Keyed.ofList [("author", .null)], 2, "site", "Page"⟩
    g.violations = [] ∧ ¬g.Answerable r ∧
      ((∃ e, g.query r = .error e) ∧ ∀ e, g.query r = .error e → g.Complaint r e) := by
  intro author book page g r
  have hrules : g.violations = [] := by decide +kernel
  have hpage : g.type? "Page" = some page := by rfl
  have hr : ¬g.Answerable r := by
    intro hr
    obtain ⟨f, hf, -, hlist⟩ := hr.nested "Page" (List.mem_singleton_self _) page hpage "author"
      (by decide)
    obtain rfl : Field.make "author" (.make "Author" false false) = f := Option.some.inj hf
    exact absurd hlist (by decide)
  obtain ⟨hfails, hcomplaints⟩ := query_fails_iff hrules r
  exact ⟨hrules, hr, hfails.2 hr, hcomplaints⟩

end Graph

end SchemaGraph
