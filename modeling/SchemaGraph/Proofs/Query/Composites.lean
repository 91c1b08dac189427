import SchemaGraph.Proofs.Query.Shapes

/-! Whether every field that has fields of its own is shown with some of them. It is not where the
values of an inline type are shown in place and nothing in them can be shown, because the type has
no fields or because all of them lead to types that are left out as too deep. -/

namespace SchemaGraph

namespace Graph

variable (g : Graph)

/-- The values of the field have fields of their own, as those of a type or of a resource do. -/
def isComposite (f : Field) : Bool :=
  g.hasType f.type.name || Builtin.isResourceReference f.type.name

def Suits (f : Field) (s : Selection) : Prop :=
  if g.isComposite f then s.children ≠ [] else s = .leaf f.name

def marked (f : Field) : Bool :=
  f.isRelation == (g.hasType f.type.name && !Builtin.isResourceReference f.type.name)

def opens : (levels : Nat) → Field → Bool
  | 0, f => g.marked f
  | levels + 1, f =>
    g.marked f &&
      match g.embedded? f with
      | none => true
      | some t => t.fields.values.any (g.fits levels) && t.fields.values.all (opens levels)

variable {g} {f : Field}

/-! A single field -/

section Embedded

variable {t : TypeDef} (h : g.embedded? f = some t)
include h

theorem hasType_of_embedded : g.hasType f.type.name = true := by
  have htype : g.types.get? f.type.name = some t :=
    (Option.filter_eq_some_iff.1 (inlineTarget_of_embedded h).2).1
  rw [hasType, Keyed.contains, htype]
  rfl

theorem marked_of_embedded : g.marked f = true := by
  have hrelation := (inlineTarget_of_embedded h).1
  have hresource := (Bool.and_eq_true _ _ ▸ hrelation).2
  rw [marked, hasType_of_embedded h, hrelation, hresource]
  rfl

theorem opens_succ_of_embedded (levels : Nat) : g.opens (levels + 1) f = true ↔
    (∃ a ∈ t.fields.values, g.fits levels a = true) ∧
      ∀ a ∈ t.fields.values, g.opens levels a = true := by
  simp [opens, h, marked_of_embedded h]

end Embedded

theorem opens_of_none (h : g.embedded? f = none) (levels : Nat) :
    g.opens levels f = g.marked f := by
  cases levels <;> simp [opens, h]

theorem zero_and_embedded_of_none {levels : Nat} (h : g.shownWithin levels f = none) :
    levels = 0 ∧ ∃ t, g.embedded? f = some t := by
  cases ht : g.embedded? f with
  | none =>
    rw [shownWithin_of_none ht] at h
    cases h
  | some t =>
    cases levels with
    | zero => exact ⟨rfl, t, rfl⟩
    | succ levels =>
      rw [shownWithin_succ_of_some ht] at h
      cases h

theorem suits_plainSelection_iff : g.Suits f (plainSelection f) ↔ g.marked f = true := by
  have hidentity : identity ≠ [] := List.cons_ne_nil _ _
  unfold Suits marked isComposite plainSelection Field.isRelation
  cases Builtin.isResourceReference f.type.name <;> cases f.type.isCustom <;>
    cases g.hasType f.type.name <;>
      simp [resourceSelection, Selection.node, Selection.leaf, Selection.children, hidentity]

theorem suits_relationList_iff (o : ItemOptions) (h : g.pages f = true) :
    g.Suits f (relationList o f) ↔ g.marked f = true := by
  simp only [pages, Field.isRelation, Bool.and_eq_true, Bool.not_eq_true'] at h
  obtain ⟨⟨⟨hcustom, hresource⟩, -⟩, -⟩ := h
  unfold Suits marked isComposite Field.isRelation
  cases g.hasType f.type.name <;>
    simp [hcustom, hresource, relationList, Selection.children, Selection.leaf]

theorem suits_node_iff {levels : Nat} {t : TypeDef} (h : g.embedded? f = some t) :
    g.Suits f (.node f.name (t.fields.values.filterMap (g.shownWithin levels))) ↔
      ∃ a ∈ t.fields.values, g.fits levels a = true := by
  have hcomposite : g.isComposite f = true := by
    rw [isComposite, hasType_of_embedded h, Bool.true_or]
  rw [Suits, if_pos hcomposite]
  show t.fields.values.filterMap (g.shownWithin levels) ≠ [] ↔ _
  simp only [fits_iff, ne_eq, List.filterMap_eq_nil_iff, not_forall, exists_prop,
    ← Option.isSome_iff_exists, Option.isSome_iff_ne_none]

/-! All fields -/

theorem suits_of_opens {levels : Nat} {s : Selection} (hs : g.shownWithin levels f = some s)
    (h : g.opens levels f = true) : g.Suits f s := by
  obtain ⟨hnone, rfl⟩ | ⟨below, t, rfl, ht, rfl⟩ := plain_or_embedded_of_shownWithin hs
  · exact suits_plainSelection_iff.2 (opens_of_none hnone levels ▸ h)
  · exact (suits_node_iff ht).2 ((opens_succ_of_embedded ht below).1 h).1

section Rules

variable (hrules : g.violations = [])
include hrules

theorem opens_of_suits {fields : List Field} {items : List Selection}
    (hall : ∀ n f s, g.Shown fields items n f s → g.Suits f s) {levels n : Nat} {s : Selection}
    (hshown : g.Shown fields items n f s) (hs : g.shownWithin levels f = some s) :
    g.opens levels f = true := by
  have hsuits := hall n f s hshown
  induction levels generalizing n f s with
  | zero =>
    obtain ⟨-, rfl⟩ | ⟨_, _, hlevels, -⟩ := plain_or_embedded_of_shownWithin hs
    · exact suits_plainSelection_iff.1 hsuits
    · cases hlevels
  | succ levels ih =>
    obtain ⟨hnone, rfl⟩ | ⟨_, t, hlevels, ht, rfl⟩ := plain_or_embedded_of_shownWithin hs
    · rw [opens_of_none hnone]
      exact suits_plainSelection_iff.1 hsuits
    · obtain rfl := Nat.succ.inj hlevels
      refine (opens_succ_of_embedded ht levels).2
        ⟨(suits_node_iff ht).1 hsuits, fun a ha => ?_⟩
      cases hc : g.shownWithin levels a with
      | some c =>
        obtain ⟨hmem, hname⟩ := (mem_children_iff hrules ht ha).2 hc
        have hinside := hshown.inside ht ha hmem hname
        exact ih hinside hc (hall _ _ _ hinside)
      | none =>
        -- A field without room is not shown, but then its mark is right in any case.
        obtain ⟨rfl, u, hu⟩ := zero_and_embedded_of_none hc
        exact marked_of_embedded hu

theorem opens_of_shown {typeName : String} {o : ItemOptions} {t : TypeDef}
    (ht : g.type? typeName = some t) (hopens : ∀ f ∈ selectedFields o t, g.opens 2 f = true)
    {n : Nat} {f : Field} {s : Selection} (h : g.Shown (selectedFields o t)
      (identity ++ (selectedFields o t).map (g.shape o)) n f s) : g.opens (2 - n) f = true := by
  induction h with
  | selected hf _ _ => exact hopens _ hf
  | @inside n f a s c u hshown hu ha _ _ ih =>
    obtain ⟨below, hroom, -⟩ := hshown.room hrules ht hu
    have hleft : 2 - (n + 1) = below := by omega
    rw [hroom] at ih
    rw [hleft]
    exact ((opens_succ_of_embedded hu below).1 ih).2 a ha

theorem suits_iff_opens {r : QueryRequest} {q : Query} (hquery : g.query r = .ok q) :
    (∀ n f s, g.Shown (g.requested r) q.items n f s → g.Suits f s) ↔
      ∀ f ∈ g.requested r, g.opens 2 f = true := by
  cases hr : r.instances? with
  | none =>
    -- Other requests select no declared fields.
    have hnone : g.requested r = [] := by simp [requested, hr]
    rw [hnone]
    exact iff_of_true (fun _ _ _ h => absurd h not_shown_nil) fun _ hf =>
      absurd hf List.not_mem_nil
  | some e =>
    obtain ⟨typeName, o⟩ := e
    obtain ⟨t, items, hq⟩ := exists_presents hr hquery
    rw [requested_eq hr hq.type, hq.items_eq_shapes hrules]
    constructor
    · intro hall f hf
      obtain ⟨hmem, hname⟩ := (mem_items_iff hrules hq.type hf).2 rfl
      have hshown : g.Shown (selectedFields o t)
          (identity ++ (selectedFields o t).map (g.shape o)) 0 f (g.shape o f) :=
        .selected hf hmem hname
      cases hpages : g.pages f with
      | true =>
        have hsuits := hall 0 f _ hshown
        rw [shape_of_pages o hpages] at hsuits
        rw [opens_of_none (embedded_of_pages hpages)]
        exact (suits_relationList_iff o hpages).1 hsuits
      | false => exact opens_of_suits hrules hall hshown (shownWithin_two o hpages)
    · intro hopens n f s h
      have hroom := opens_of_shown hrules hq.type hopens h
      obtain ⟨-, hs⟩ := h.within hrules hq.type
      split at hs
      · rename_i hpages
        rw [opens_of_none (embedded_of_pages hpages)] at hroom
        rw [hs]
        exact (suits_relationList_iff o hpages).2 hroom
      · exact suits_of_opens hs hroom

end Rules

/-- A value in place that has another one in it, with a resource and a number. -/
theorem suits_of_nested_values :
    let inner := (((TypeDef.make "Inner" .object).withDirective (.named "inline" ∅)).withField
      (.make "seq" (.make "Sequence" false false))).withField
        (.make "code" (.make "Int" false false))
    let outer := (((TypeDef.make "Outer" .object).withDirective (.named "inline" ∅)).withField
      (.make "inner" (.make "Inner" false false))).withField
        (.make "doc" (.make "Doc" false false))
    let doc := ((TypeDef.make "Doc" .object).withField
      (.make "outer" (.make "Outer" false false))).withField
        (.make "related" (.make "Doc" true false))
    let g : Graph := ⟨Keyed.ofList [("Inner", inner), ("Outer", outer), ("Doc", doc)]⟩
    let r : QueryRequest := .search ⟨none, none, none, 2, "lean", "Doc"⟩
    ∃ q, g.violations = [] ∧ g.query r = .ok q ∧
      ∀ n f s, g.Shown (g.requested r) q.items n f s → g.Suits f s := by
  intro inner outer doc g r
  have hrules : g.violations = [] := by decide +kernel
  have hopens : ∀ f ∈ g.requested r, g.opens 2 f = true := by decide +kernel
  obtain ⟨q, hquery⟩ : ∃ q, g.query r = .ok q := ⟨_, rfl⟩
  exact ⟨q, hrules, hquery, (suits_iff_opens hrules hquery).2 hopens⟩

/-- A node that leads to the next one, in place. The first shows the second, and of the second
nothing is left, but it is shown. -/
theorem not_suits_of_linked_nodes :
    let node := ((TypeDef.make "Node" .object).withDirective (.named "inline" ∅)).withField
      (.make "next" (.make "Node" false false))
    let post := (TypeDef.make "Post" .object).withField (.make "head" (.make "Node" false false))
    let g : Graph := ⟨Keyed.ofList [("Node", node), ("Post", post)]⟩
    let r : QueryRequest := .list ⟨none, none, 10, none, 2, none, "Post"⟩
    ∃ q, g.violations = [] ∧ g.query r = .ok q ∧
      ∃ n f s, g.Shown (g.requested r) q.items n f s ∧ g.isComposite f = true ∧
        s.children = [] := by
  intro node post g r
  have hrules : g.violations = [] := by decide +kernel
  obtain ⟨q, hquery⟩ : ∃ q, g.query r = .ok q := ⟨_, rfl⟩
  let head := Field.make "head" (.make "Node" false false)
  let next := Field.make "next" (.make "Node" false false)
  have hitems : q.items = identity ++ [.node "head" [.leaf "next"]] := by
    cases hquery
    rfl
  have hhead : g.Shown (g.requested r) q.items 0 head (.node "head" [.leaf "next"]) := by
    rw [hitems]
    exact .selected List.mem_cons_self (List.mem_append_right _ List.mem_cons_self) rfl
  refine ⟨q, hrules, hquery, 1, next, .leaf "next", ?_, by decide +kernel, rfl⟩
  have hembedded : g.embedded? head = some node := by decide +kernel
  exact hhead.inside hembedded List.mem_cons_self List.mem_cons_self rfl

end Graph

end SchemaGraph
