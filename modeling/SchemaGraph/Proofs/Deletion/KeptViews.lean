import SchemaGraph.Proofs.Deletion.References

/-! Who keeps a view. A plan has one entry for each view that is kept, and the entry names every
other model that lists the view, once and in the order of the listing. -/

namespace SchemaGraph.DeletionPlan

/-- What other models list: a key of a model with a view, in the order of the listing. -/
def listings (candidate : ModelKey) (models : List ModelVersion) : List (ModelKey × ViewKey) :=
  (models.filter fun m => !m.key.sameModel candidate).flatMap fun m =>
    m.views.map fun v => (m.key, v)

def listers (seen : List (ModelKey × ViewKey)) (v : ViewKey) : List ModelKey :=
  (seen.filter fun e => e.2 = v).map Prod.fst

variable {candidate : ModelKey}

theorem listings_append (ms ns : List ModelVersion) :
    listings candidate (ms ++ ns) = listings candidate ms ++ listings candidate ns := by
  unfold listings
  rw [List.filter_append, List.flatMap_append]

theorem listings_singleton (m : ModelVersion) :
    listings candidate [m] =
      if m.key.sameModel candidate then [] else m.views.map fun v => (m.key, v) := by
  unfold listings
  cases h : m.key.sameModel candidate <;> simp [h]

theorem mem_listings {models : List ModelVersion} {key : ModelKey} {v : ViewKey} :
    (key, v) ∈ listings candidate models ↔
      ∃ m ∈ models, m.key.sameModel candidate = false ∧ m.key = key ∧ v ∈ m.views := by
  simp only [listings, List.mem_flatMap, List.mem_filter, List.mem_map, Prod.mk.injEq,
    Bool.not_eq_true', and_assoc]
  refine exists_congr fun m => and_congr_right fun _ => and_congr_right fun _ => ?_
  constructor
  · rintro ⟨w, hw, hkey, rfl⟩
    exact ⟨hkey, hw⟩
  · rintro ⟨hkey, hv⟩
    exact ⟨v, hv, hkey, rfl⟩

theorem mem_listers {seen : List (ModelKey × ViewKey)} {key : ModelKey} {v : ViewKey} :
    key ∈ listers seen v ↔ (key, v) ∈ seen := by
  simp only [listers, List.mem_map, List.mem_filter, decide_eq_true_eq]
  constructor
  · rintro ⟨e, ⟨he, rfl⟩, rfl⟩
    exact he
  · intro he
    exact ⟨(key, v), ⟨he, rfl⟩, rfl⟩

theorem listers_concat (seen : List (ModelKey × ViewKey)) (key : ModelKey) (v w : ViewKey) :
    listers (seen ++ [(key, v)]) w =
      if v = w then listers seen w ++ [key] else listers seen w := by
  unfold listers
  rw [List.filter_append, List.map_append]
  by_cases h : v = w <;> simp [h]

structure Records (seen : List (ModelKey × ViewKey)) (p : DeletionPlan) : Prop where
  nodup : p.keptViews.Nodup
  entry : ∀ r ∈ p.referencedViews, r.referencedBy = (listers seen r.view).eraseDups
  unlisted : ∀ v ∈ p.deletableViews, listers seen v = []

variable {views : List ViewKey} {seen : List (ModelKey × ViewKey)} {p : DeletionPlan}

theorem Records.addReference (h : Records seen p) (hp : Partitions views p) (key : ModelKey)
    (v : ViewKey) : Records (seen ++ [(key, v)]) (addReference key p v) := by
  have hkept : ∀ r ∈ p.referencedViews, r.view ∈ p.keptViews := fun r hr =>
    List.mem_map_of_mem hr
  constructor
  · rw [keptViews_addReference]
    split
    · rename_i hv
      have hnew : v ∉ p.keptViews := hp.disjoint v hv
      exact List.nodup_append.2 ⟨h.nodup, by simp, fun w hw u hu he =>
        hnew (List.mem_singleton.1 hu ▸ he ▸ hw)⟩
    · rw [List.append_nil]
      exact h.nodup
  · intro r hr
    unfold DeletionPlan.addReference at hr
    split at hr
    · -- The view becomes one that is kept, so no entry is there for it yet.
      rename_i hv
      have hv : v ∈ p.deletableViews := List.contains_iff_mem.1 hv
      rcases List.mem_append.1 hr with hold | hnew
      · have hne : v ≠ r.view := fun he => hp.disjoint v hv (he ▸ hkept r hold)
        rw [listers_concat, if_neg hne]
        exact h.entry r hold
      · obtain rfl := List.mem_singleton.1 hnew
        rw [listers_concat, if_pos rfl, h.unlisted v hv]
        rfl
    · obtain ⟨s, hs, rfl⟩ := List.mem_map.1 hr
      have hs := h.entry s hs
      by_cases hview : s.view = v
      · cases hcontains : s.referencedBy.contains key with
        | true =>
          rw [if_neg (by simp), listers_concat, if_pos hview.symm,
            eraseDups_concat, ← hs, if_pos hcontains]
        | false =>
          rw [if_pos ⟨hview, rfl⟩, listers_concat, if_pos hview.symm,
            eraseDups_concat, ← hs, if_neg (by rw [hcontains]; simp)]
      · rw [if_neg fun hc => hview hc.1, listers_concat, if_neg (Ne.symm hview)]
        exact hs
  · intro w hw
    rw [deletableViews_addReference] at hw
    obtain ⟨hmem, hne⟩ := List.mem_filter.1 hw
    rw [listers_concat, if_neg (Ne.symm (of_decide_eq_true hne))]
    exact h.unlisted w hmem

theorem Records.foldl_addReference (h : Records seen p) (hp : Partitions views p) (key : ModelKey)
    (vs : List ViewKey) : Records (seen ++ vs.map fun v => (key, v))
      (vs.foldl (DeletionPlan.addReference key) p) := by
  induction vs generalizing seen p with
  | nil => rwa [List.map_nil, List.append_nil]
  | cons v vs ih =>
    have hrest := ih (h.addReference hp key v) (hp.addReference key v)
    rwa [List.append_assoc, List.singleton_append] at hrest

theorem Records.addModel (h : Records seen p) (hp : Partitions views p) (m : ModelVersion) :
    Records (seen ++ listings candidate [m]) (addModel candidate p m) := by
  rw [listings_singleton]
  unfold DeletionPlan.addModel
  split
  · rw [List.append_nil]
    split
    · exact h
    · exact ⟨h.nodup, h.entry, h.unlisted⟩
  · exact h.foldl_addReference hp m.key m.views

theorem Records.foldl_addModel (h : Records seen p) (hp : Partitions views p)
    (models : List ModelVersion) : Records (seen ++ listings candidate models)
      (models.foldl (DeletionPlan.addModel candidate) p) := by
  induction models generalizing seen p with
  | nil =>
    have hnone : listings candidate [] = [] := rfl
    rwa [hnone, List.append_nil]
  | cons m ms ih =>
    have hfirst : Records (seen ++ listings candidate [m]) (DeletionPlan.addModel candidate p m) :=
      h.addModel hp m
    have hrest := ih hfirst (hp.addModel m)
    rwa [List.append_assoc, ← listings_append, List.singleton_append] at hrest

theorem records_compute (candidate : ModelVersion) (models : List ModelVersion) :
    Records (listings candidate.key models) (compute candidate models) := by
  have hstart : Records [] (start candidate) :=
    ⟨List.nodup_nil, fun r hr => absurd hr List.not_mem_nil, fun v _ => rfl⟩
  exact hstart.foldl_addModel (partitions_start candidate) models

theorem mem_referencedBy_compute {candidate : ModelVersion} {models : List ModelVersion}
    {r : ReferencedView} (hr : r ∈ (compute candidate models).referencedViews) (key : ModelKey) :
    key ∈ r.referencedBy ↔ ∃ m ∈ models,
      m.key.sameModel candidate.key = false ∧ m.key = key ∧ r.view ∈ m.views := by
  rw [(records_compute candidate models).entry r hr, List.mem_eraseDups, mem_listers,
    mem_listings]

end SchemaGraph.DeletionPlan
