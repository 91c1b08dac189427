import SchemaGraph.Deletion.Plan

/-! What a plan decides about views, versions and containers, read off the listing. A view is
deleted when no other model lists it, a container when this holds of every view of the model
that keeps its data there. Of the views that only other versions of the model list, none is. -/

namespace SchemaGraph.DeletionPlan

def ListedElsewhere (candidate : ModelKey) (models : List ModelVersion) (v : ViewKey) : Prop :=
  ∃ m ∈ models, m.key.sameModel candidate = false ∧ v ∈ m.views

instance (candidate : ModelKey) (models : List ModelVersion) (v : ViewKey) :
    Decidable (ListedElsewhere candidate models v) :=
  inferInstanceAs (Decidable (∃ m ∈ models, m.key.sameModel candidate = false ∧ v ∈ m.views))

def keptViews (p : DeletionPlan) : List ViewKey := p.referencedViews.map ReferencedView.view

variable {candidate : ModelKey}

@[simp] theorem not_listedElsewhere_nil (v : ViewKey) : ¬ListedElsewhere candidate [] v := by
  rintro ⟨m, hm, -⟩
  exact List.not_mem_nil hm

theorem listedElsewhere_cons (m : ModelVersion) (ms : List ModelVersion) (v : ViewKey) :
    ListedElsewhere candidate (m :: ms) v ↔
      (m.key.sameModel candidate = false ∧ v ∈ m.views) ∨ ListedElsewhere candidate ms v := by
  simp only [ListedElsewhere, List.mem_cons, or_and_right, exists_or, exists_eq_left]

/-! One reference -/

theorem deletableViews_addReference (key : ModelKey) (p : DeletionPlan) (v : ViewKey) :
    (addReference key p v).deletableViews = p.deletableViews.filter fun w => w ≠ v := by
  unfold addReference
  split
  · rfl
  · rename_i h
    have hv : v ∉ p.deletableViews := by simpa using h
    refine (List.filter_eq_self.2 fun w hw => ?_).symm
    have hne : w ≠ v := fun he => hv (he ▸ hw)
    simpa using hne

theorem keptViews_addReference (key : ModelKey) (p : DeletionPlan) (v : ViewKey) :
    (addReference key p v).keptViews =
      p.keptViews ++ if v ∈ p.deletableViews then [v] else [] := by
  unfold addReference
  by_cases h : v ∈ p.deletableViews
  · simp [h, keptViews]
  · simp only [List.contains_eq_mem, h, decide_false, Bool.false_eq_true, if_false, keptViews,
      List.map_map, List.append_nil]
    refine List.map_congr_left fun r _ => ?_
    rw [Function.comp_apply]
    split <;> rfl

@[simp] theorem modelVersions_addReference (key : ModelKey) (p : DeletionPlan) (v : ViewKey) :
    (addReference key p v).modelVersions = p.modelVersions := by
  unfold addReference
  split <;> rfl

/-! The deletable views -/

theorem deletableViews_foldl_addReference (key : ModelKey) (vs : List ViewKey)
    (p : DeletionPlan) : (vs.foldl (addReference key) p).deletableViews =
      p.deletableViews.filter fun w => w ∉ vs := by
  induction vs generalizing p with
  | nil => exact (List.filter_eq_self.2 fun w _ => by simp).symm
  | cons v vs ih =>
    rw [List.foldl_cons, ih, deletableViews_addReference, List.filter_filter]
    refine List.filter_congr fun w _ => ?_
    rw [Bool.and_comm, ← Bool.decide_and]
    simp only [List.mem_cons, not_or, ne_eq]

theorem deletableViews_addModel (p : DeletionPlan) (m : ModelVersion) :
    (addModel candidate p m).deletableViews = p.deletableViews.filter fun w =>
      ¬(m.key.sameModel candidate = false ∧ w ∈ m.views) := by
  unfold addModel
  cases h : m.key.sameModel candidate with
  | true =>
    have hall : p.deletableViews.filter (fun w => ¬(true = false ∧ w ∈ m.views)) =
        p.deletableViews := List.filter_eq_self.2 fun w _ => by simp
    rw [if_pos rfl, hall]
    split <;> rfl
  | false =>
    simp only [Bool.false_eq_true, if_false, deletableViews_foldl_addReference, true_and]

theorem deletableViews_foldl_addModel (models : List ModelVersion) (p : DeletionPlan) :
    (models.foldl (addModel candidate) p).deletableViews =
      p.deletableViews.filter fun w => ¬ListedElsewhere candidate models w := by
  induction models generalizing p with
  | nil => exact (List.filter_eq_self.2 fun w _ => by simp).symm
  | cons m ms ih =>
    -- Both sides filter with the two conditions, in different orders.
    rw [List.foldl_cons, ih, deletableViews_addModel, List.filter_filter]
    refine List.filter_congr fun w _ => ?_
    simp only [listedElsewhere_cons, not_or, Bool.decide_and, Bool.and_comm]

theorem deletableViews_compute (candidate : ModelVersion) (models : List ModelVersion) :
    (compute candidate models).deletableViews =
      candidate.views.eraseDups.filter fun w => ¬ListedElsewhere candidate.key models w :=
  deletableViews_foldl_addModel models (start candidate)

theorem mem_deletableViews_compute (candidate : ModelVersion) (models : List ModelVersion)
    (v : ViewKey) : v ∈ (compute candidate models).deletableViews ↔
      v ∈ candidate.views ∧ ¬ListedElsewhere candidate.key models v := by
  rw [deletableViews_compute, List.mem_filter, List.mem_eraseDups, decide_eq_true_iff]

/-! The views that are kept -/

structure Partitions (views : List ViewKey) (p : DeletionPlan) : Prop where
  mem_iff : ∀ v, v ∈ p.deletableViews ∨ v ∈ p.keptViews ↔ v ∈ views
  disjoint : ∀ v ∈ p.deletableViews, v ∉ p.keptViews

variable {views : List ViewKey} {p : DeletionPlan}

theorem Partitions.addReference (h : Partitions views p) (key : ModelKey) (v : ViewKey) :
    Partitions views (addReference key p v) := by
  constructor
  · intro w
    rw [← h.mem_iff w, deletableViews_addReference, keptViews_addReference]
    by_cases hv : v ∈ p.deletableViews <;> by_cases hw : w = v <;> simp [hv, hw]
  · intro w hw
    rw [deletableViews_addReference] at hw
    have hmem : w ∈ p.deletableViews ∧ w ≠ v := by simpa using hw
    rw [keptViews_addReference]
    by_cases hv : v ∈ p.deletableViews <;> simp [hv, h.disjoint w hmem.1, hmem.2]

theorem Partitions.foldl_addReference (h : Partitions views p) (key : ModelKey)
    (vs : List ViewKey) : Partitions views (vs.foldl (DeletionPlan.addReference key) p) := by
  induction vs generalizing p with
  | nil => exact h
  | cons v vs ih => exact ih (h.addReference key v)

theorem Partitions.addModel (h : Partitions views p) (m : ModelVersion) :
    Partitions views (addModel candidate p m) := by
  unfold DeletionPlan.addModel
  split
  · split
    · exact h
    · exact ⟨h.mem_iff, h.disjoint⟩
  · exact h.foldl_addReference m.key m.views

theorem Partitions.foldl_addModel (h : Partitions views p) (models : List ModelVersion) :
    Partitions views (models.foldl (DeletionPlan.addModel candidate) p) := by
  induction models generalizing p with
  | nil => exact h
  | cons m ms ih => exact ih (h.addModel m)

theorem partitions_start (candidate : ModelVersion) :
    Partitions candidate.views (start candidate) := by
  constructor
  · intro v
    simp [start, keptViews, List.mem_eraseDups]
  · intro v _
    simp [start, keptViews]

theorem partitions_compute (candidate : ModelVersion) (models : List ModelVersion) :
    Partitions candidate.views (compute candidate models) :=
  (partitions_start candidate).foldl_addModel models

theorem mem_keptViews_compute (candidate : ModelVersion) (models : List ModelVersion)
    (v : ViewKey) : v ∈ (compute candidate models).keptViews ↔
      v ∈ candidate.views ∧ ListedElsewhere candidate.key models v := by
  have h := partitions_compute candidate models
  have hd := mem_deletableViews_compute candidate models v
  constructor
  · intro hk
    have hv := (h.mem_iff v).1 (.inr hk)
    have hnd : v ∉ (compute candidate models).deletableViews := fun hdel => h.disjoint v hdel hk
    rw [hd] at hnd
    exact ⟨hv, Decidable.of_not_not fun hl => hnd ⟨hv, hl⟩⟩
  · rintro ⟨hv, hl⟩
    rcases (h.mem_iff v).2 hv with hdel | hk
    · exact absurd hl (hd.1 hdel).2
    · exact hk

/-! The versions that go with the model -/

def ownKeys (candidate : ModelKey) (models : List ModelVersion) : List ModelKey :=
  (models.map ModelVersion.key).filter fun k => k.sameModel candidate

theorem modelVersions_foldl_addReference (key : ModelKey) (vs : List ViewKey)
    (p : DeletionPlan) : (vs.foldl (addReference key) p).modelVersions = p.modelVersions := by
  induction vs generalizing p with
  | nil => rfl
  | cons v vs ih => rw [List.foldl_cons, ih, modelVersions_addReference]

theorem modelVersions_addModel {seen : List ModelKey} (h : p.modelVersions = seen.eraseDups)
    (m : ModelVersion) : (addModel candidate p m).modelVersions =
      (seen ++ ownKeys candidate [m]).eraseDups := by
  unfold addModel
  cases hown : m.key.sameModel candidate with
  | true =>
    have hkeys : ownKeys candidate [m] = [m.key] := by simp [ownKeys, hown]
    rw [if_pos rfl, hkeys, eraseDups_concat, ← h]
    split <;> rfl
  | false =>
    have hkeys : ownKeys candidate [m] = [] := by simp [ownKeys, hown]
    rw [if_neg Bool.false_ne_true, hkeys, List.append_nil, ← h]
    exact modelVersions_foldl_addReference m.key m.views p

theorem modelVersions_foldl_addModel {seen : List ModelKey}
    (h : p.modelVersions = seen.eraseDups) (models : List ModelVersion) :
    (models.foldl (addModel candidate) p).modelVersions =
      (seen ++ ownKeys candidate models).eraseDups := by
  induction models generalizing p seen with
  | nil => simpa [ownKeys] using h
  | cons m ms ih =>
    have hkeys : ownKeys candidate (m :: ms) = ownKeys candidate [m] ++ ownKeys candidate ms := by
      rw [ownKeys, ownKeys, ownKeys, ← List.filter_append, ← List.map_append,
        List.singleton_append]
    rw [List.foldl_cons, ih (modelVersions_addModel h m), hkeys, List.append_assoc]

theorem modelVersions_compute (candidate : ModelVersion) (models : List ModelVersion) :
    (compute candidate models).modelVersions =
      (candidate.key :: ownKeys candidate.key models).eraseDups := by
  have hstart : (start candidate).modelVersions = [candidate.key].eraseDups := rfl
  exact modelVersions_foldl_addModel hstart models

theorem nodup_modelVersions_compute (candidate : ModelVersion) (models : List ModelVersion) :
    (compute candidate models).modelVersions.Nodup := by
  rw [modelVersions_compute]
  exact nodup_eraseDups _

theorem mem_modelVersions_compute (candidate : ModelVersion) (models : List ModelVersion)
    (k : ModelKey) : k ∈ (compute candidate models).modelVersions ↔
      k = candidate.key ∨ k.sameModel candidate.key = true ∧ ∃ m ∈ models, m.key = k := by
  rw [modelVersions_compute, List.mem_eraseDups, List.mem_cons, ownKeys, List.mem_filter,
    List.mem_map, and_comm]

/-! Containers -/

theorem retainedContainers_eq (p : DeletionPlan) :
    p.retainedContainers = p.keptViews.map ViewKey.container := by
  simp only [retainedContainers, keptViews, List.map_map, Function.comp_def]

theorem mem_containers (p : DeletionPlan) (c : ContainerKey) :
    c ∈ p.containers ↔
      (∃ v ∈ p.deletableViews, v.container = c) ∧ ∀ v ∈ p.keptViews, v.container ≠ c := by
  simp [containers, p.retainedContainers_eq, List.mem_eraseDups]

theorem mem_containers_compute (candidate : ModelVersion) (models : List ModelVersion)
    (c : ContainerKey) : c ∈ (compute candidate models).containers ↔
      (∃ v ∈ candidate.views, v.container = c) ∧
        ∀ v ∈ candidate.views, v.container = c → ¬ListedElsewhere candidate.key models v := by
  rw [mem_containers]
  simp only [mem_deletableViews_compute, mem_keptViews_compute]
  constructor
  · rintro ⟨⟨v, ⟨hv, -⟩, hc⟩, hkept⟩
    exact ⟨⟨v, hv, hc⟩, fun w hw hwc hl => hkept w ⟨hw, hl⟩ hwc⟩
  · rintro ⟨⟨v, hv, hc⟩, hfree⟩
    exact ⟨⟨v, ⟨hv, hfree v hv hc⟩, hc⟩, fun w hw hwc => hfree w hw.1 hwc hw.2⟩

/-- Of a view that another model lists, the container survives in two cases only: the model to
delete keeps nothing there, or one of its own views of that container is listed elsewhere. -/
theorem listed_container_spared_iff (candidate : ModelVersion) (models : List ModelVersion) :
    ∀ v, ListedElsewhere candidate.key models v →
      (v.container ∉ (compute candidate models).containers ↔
        (∀ w ∈ candidate.views, w.container ≠ v.container) ∨
          ∃ w ∈ candidate.views, w.container = v.container ∧
            ListedElsewhere candidate.key models w) := by
  intro v _
  rw [mem_containers_compute]
  constructor
  · intro h
    -- A container of one of the model's own views goes unless one of those views is kept.
    by_cases hown : ∃ w ∈ candidate.views, w.container = v.container
    · by_cases hlisted : ∃ w ∈ candidate.views, w.container = v.container ∧
          ListedElsewhere candidate.key models w
      · exact .inr hlisted
      · exact absurd ⟨hown, fun w hw hc hl => hlisted ⟨w, hw, hc, hl⟩⟩ h
    · exact .inl fun w hw hc => hown ⟨w, hw, hc⟩
  · rintro (hnone | ⟨w, hw, hc, hl⟩) ⟨⟨u, hu, huc⟩, hfree⟩
    · exact hnone u hu huc
    · exact hfree w hw hc hl

theorem listed_container_spared_shared :
    let owner : ModelVersion :=
      ⟨0, "Owner", "", "blog", "1", [⟨"Person", "blog", "1"⟩, ⟨"Person", "blog", "2"⟩]⟩
    let reader : ModelVersion :=
      ⟨0, "Reader", "", "blog", "1", [⟨"Person", "blog", "3"⟩, ⟨"Person", "blog", "1"⟩]⟩
    let v : ViewKey := ⟨"Person", "blog", "3"⟩
    ListedElsewhere owner.key [reader] v ∧
      v.container ∉ (compute owner [reader]).containers := by
  intro owner reader v
  have hv : ListedElsewhere owner.key [reader] v := by decide
  refine ⟨hv, (listed_container_spared_iff owner [reader] v hv).2 (.inr ?_)⟩
  exact ⟨⟨"Person", "blog", "1"⟩, by decide, by decide, by decide⟩

/-- A version that only the other model lists does not save the container. -/
theorem listed_container_deleted :
    let owner : ModelVersion := ⟨0, "Owner", "", "blog", "1", [⟨"Person", "blog", "1"⟩]⟩
    let reader : ModelVersion := ⟨0, "Reader", "", "blog", "1", [⟨"Person", "blog", "2"⟩]⟩
    let v : ViewKey := ⟨"Person", "blog", "2"⟩
    ListedElsewhere owner.key [reader] v ∧
      v.container ∈ (compute owner [reader]).containers := by
  intro owner reader v
  exact ⟨by decide, by decide +kernel⟩

/-! The views of all versions -/

structure LeavesNoOrphan (candidate : ModelVersion) (models : List ModelVersion)
    (p : DeletionPlan) : Prop where
  versions_go : ∀ m ∈ models, m.key.sameModel candidate.key = true → m.key ∈ p.modelVersions
  views_go : ∀ m ∈ models, m.key.sameModel candidate.key = true → ∀ v ∈ m.views,
    v ∈ p.deletableViews ∨ ListedElsewhere candidate.key models v

theorem deletable_or_listed_iff (candidate : ModelVersion) (models : List ModelVersion)
    (v : ViewKey) :
    v ∈ (compute candidate models).deletableViews ∨ ListedElsewhere candidate.key models v ↔
      v ∈ candidate.views ∨ ListedElsewhere candidate.key models v := by
  rw [mem_deletableViews_compute]
  by_cases hlisted : ListedElsewhere candidate.key models v <;> simp [hlisted]

/-- All versions go, but only the views of the one that is given go with them. So none is left
behind exactly when the other versions list no view that they have to themselves. -/
theorem leavesNoOrphan_iff (candidate : ModelVersion) (models : List ModelVersion) :
    LeavesNoOrphan candidate models (compute candidate models) ↔
      ∀ m ∈ models, m.key.sameModel candidate.key = true → ∀ v ∈ m.views,
        v ∈ candidate.views ∨ ListedElsewhere candidate.key models v := by
  have hversions : ∀ m ∈ models, m.key.sameModel candidate.key = true →
      m.key ∈ (compute candidate models).modelVersions := fun m hm hown =>
    (mem_modelVersions_compute candidate models m.key).2 (.inr ⟨hown, m, hm, rfl⟩)
  constructor
  · intro h m hm hown v hv
    exact (deletable_or_listed_iff candidate models v).1 (h.views_go m hm hown v hv)
  · intro h
    refine ⟨hversions, fun m hm hown v hv => ?_⟩
    exact (deletable_or_listed_iff candidate models v).2 (h m hm hown v hv)

/-- The first version lists a view that the second has given up. -/
theorem not_leavesNoOrphan_of_dropped_view :
    let first : ModelVersion :=
      ⟨0, "Owner", "", "blog", "1", [⟨"Person", "blog", "1"⟩, ⟨"Tag", "blog", "1"⟩]⟩
    let second : ModelVersion := ⟨0, "Owner", "", "blog", "2", [⟨"Person", "blog", "1"⟩]⟩
    first.key ∈ (compute second [first, second]).modelVersions ∧
      ¬LeavesNoOrphan second [first, second] (compute second [first, second]) := by
  intro first second
  refine ⟨by decide +kernel, fun h => ?_⟩
  have htag := h.views_go first List.mem_cons_self rfl ⟨"Tag", "blog", "1"⟩ (by decide)
  revert htag
  decide +kernel

end SchemaGraph.DeletionPlan
