import SchemaGraph.Proofs.Deletion.KeptViews

/-! A plan as a count of references. The views of the model are divided by whether any other model
lists them, and every view that is kept comes with the keys of all that do. Other versions of the
model count for nothing. -/

namespace SchemaGraph.DeletionPlan

def others (candidate : ModelKey) (models : List ModelVersion) : List ModelVersion :=
  models.filter fun m => !m.key.sameModel candidate

/-- The keys of the other models that list the view, each where the listing has it first. -/
def referrers (candidate : ModelKey) (models : List ModelVersion) (v : ViewKey) : List ModelKey :=
  (((others candidate models).filter fun m => m.views.contains v).map ModelVersion.key).eraseDups

def mentioned (candidate : ModelKey) (models : List ModelVersion) : List ViewKey :=
  (others candidate models).flatMap ModelVersion.views

variable {candidate : ModelKey}

theorem others_cons (m : ModelVersion) (ms : List ModelVersion) :
    others candidate (m :: ms) = others candidate [m] ++ others candidate ms := by
  unfold others
  rw [← List.filter_append, List.singleton_append]

theorem others_own {m : ModelVersion} (h : m.key.sameModel candidate = true) :
    others candidate [m] = [] := by
  simp [others, h]

theorem others_other {m : ModelVersion} (h : m.key.sameModel candidate = false) :
    others candidate [m] = [m] := by
  simp [others, h]

theorem others_others (models : List ModelVersion) :
    others candidate (others candidate models) = others candidate models := by
  unfold others
  rw [List.filter_filter]
  simp only [Bool.and_self]

theorem listedElsewhere_iff_mem_mentioned (models : List ModelVersion) (v : ViewKey) :
    ListedElsewhere candidate models v ↔ v ∈ mentioned candidate models := by
  simp only [ListedElsewhere, mentioned, others, List.mem_flatMap, List.mem_filter,
    Bool.not_eq_true', and_assoc]

/-! Who lists a view -/

section Repetitions

variable {α : Type} [BEq α] [LawfulBEq α]

theorem eraseDups_concat_congr {xs ys : List α} (h : xs.eraseDups = ys.eraseDups) (a : α) :
    (xs ++ [a]).eraseDups = (ys ++ [a]).eraseDups := by
  rw [eraseDups_concat, eraseDups_concat, h]

theorem eraseDups_concat_append (xs : List α) (a : α) {as : List α} (h : ∀ b ∈ as, b = a) :
    (xs ++ a :: as).eraseDups = (xs ++ [a]).eraseDups := by
  induction as generalizing xs with
  | nil => rfl
  | cons b as ih =>
    obtain ⟨rfl, has⟩ := List.forall_mem_cons.1 h
    have htwice : (xs ++ [b] ++ [b]).eraseDups = (xs ++ [b]).eraseDups := by
      have hmem : (xs ++ [b]).eraseDups.contains b = true := by simp [List.mem_eraseDups]
      rw [eraseDups_concat (xs ++ [b]), if_pos hmem]
    rw [List.append_cons, ih (xs ++ [b]) has, htwice]

end Repetitions

theorem listers_append (seen more : List (ModelKey × ViewKey)) (v : ViewKey) :
    listers (seen ++ more) v = listers seen v ++ listers more v := by
  unfold listers
  rw [List.filter_append, List.map_append]

theorem eraseDups_append_listers {m : ModelVersion} (h : m.key.sameModel candidate = false)
    {xs ys : List ModelKey} (hxs : xs.eraseDups = ys.eraseDups) (v : ViewKey) :
    (xs ++ listers (listings candidate [m]) v).eraseDups =
      (ys ++ if m.views.contains v then [m.key] else []).eraseDups := by
  have hkeys : ∀ key ∈ listers (listings candidate [m]) v, key = m.key := by
    intro key hkey
    obtain ⟨n, hn, -, rfl, -⟩ := mem_listings.1 (mem_listers.1 hkey)
    rw [List.mem_singleton.1 hn]
  have hmem : m.key ∈ listers (listings candidate [m]) v ↔ v ∈ m.views := by
    rw [mem_listers, mem_listings]
    simp [h]
  cases hlisters : listers (listings candidate [m]) v with
  | nil =>
    have hv : v ∉ m.views := by simpa [hlisters] using hmem
    rw [if_neg (by simpa using hv), List.append_nil, List.append_nil, hxs]
  | cons key keys =>
    rw [hlisters] at hkeys hmem
    obtain ⟨rfl, hrest⟩ := List.forall_mem_cons.1 hkeys
    have hv : v ∈ m.views := hmem.1 List.mem_cons_self
    rw [if_pos (by simpa using hv), eraseDups_concat_append xs _ hrest,
      eraseDups_concat_congr hxs]

theorem eraseDups_listers (models : List ModelVersion) (v : ViewKey) :
    (listers (listings candidate models) v).eraseDups = referrers candidate models v := by
  -- The keys that come before, with and without repetitions, make the induction go through.
  have hall : ∀ xs ys : List ModelKey, xs.eraseDups = ys.eraseDups →
      (xs ++ listers (listings candidate models) v).eraseDups = (ys ++
        ((others candidate models).filter fun m => m.views.contains v).map
          ModelVersion.key).eraseDups := by
    induction models with
    | nil =>
      intro xs ys hxs
      simpa [listings, listers, others] using hxs
    | cons m ms ih =>
      intro xs ys hxs
      rw [← List.singleton_append, listings_append, listers_append, ← List.append_assoc,
        List.singleton_append, others_cons, List.filter_append, List.map_append,
        ← List.append_assoc]
      refine ih _ _ ?_
      cases h : m.key.sameModel candidate with
      | true =>
        have hnone : listings candidate [m] = [] := by rw [listings_singleton, if_pos h]
        rw [hnone, others_own h]
        simpa [listers] using hxs
      | false =>
        rw [eraseDups_append_listers h hxs v, others_other h, List.filter_cons, List.filter_nil]
        cases m.views.contains v <;> rfl
  exact hall [] [] rfl

/-! The order of the kept views -/

variable {views : List ViewKey} {seen : List ViewKey} {p : DeletionPlan}

theorem Partitions.mem_deletableViews_iff (h : Partitions views p) (v : ViewKey) :
    v ∈ p.deletableViews ↔ v ∈ views ∧ v ∉ p.keptViews := by
  constructor
  · intro hv
    exact ⟨(h.mem_iff v).1 (.inl hv), h.disjoint v hv⟩
  · rintro ⟨hv, hkept⟩
    exact ((h.mem_iff v).2 hv).resolve_right hkept

theorem keptViews_addReference_eq (hp : Partitions views p)
    (h : p.keptViews = (seen.filter fun w => w ∈ views).eraseDups) (key : ModelKey) (v : ViewKey) :
    (addReference key p v).keptViews =
      ((seen ++ [v]).filter fun w => w ∈ views).eraseDups := by
  rw [keptViews_addReference, List.filter_append, List.filter_cons, List.filter_nil]
  by_cases hv : v ∈ views
  · rw [if_pos (decide_eq_true hv), eraseDups_concat, ← h]
    by_cases hkept : v ∈ p.keptViews
    · have hgone : v ∉ p.deletableViews := fun hd => hp.disjoint v hd hkept
      rw [if_neg hgone, if_pos (List.contains_iff_mem.2 hkept), List.append_nil]
    · have hthere : v ∈ p.deletableViews := (hp.mem_deletableViews_iff v).2 ⟨hv, hkept⟩
      rw [if_pos hthere, if_neg (by simpa using hkept)]
  · have hgone : v ∉ p.deletableViews := fun hd => hv ((hp.mem_deletableViews_iff v).1 hd).1
    rw [if_neg hgone, if_neg (by simpa using hv), List.append_nil, List.append_nil, h]

theorem keptViews_foldl_addReference (hp : Partitions views p)
    (h : p.keptViews = (seen.filter fun w => w ∈ views).eraseDups) (key : ModelKey)
    (vs : List ViewKey) : (vs.foldl (addReference key) p).keptViews =
      ((seen ++ vs).filter fun w => w ∈ views).eraseDups := by
  induction vs generalizing seen p with
  | nil => rwa [List.append_nil]
  | cons v vs ih =>
    have hrest := ih (hp.addReference key v) (keptViews_addReference_eq hp h key v)
    rwa [List.append_assoc, List.singleton_append] at hrest

theorem keptViews_addModel (hp : Partitions views p)
    (h : p.keptViews = (seen.filter fun w => w ∈ views).eraseDups) (m : ModelVersion) :
    (addModel candidate p m).keptViews =
      ((seen ++ mentioned candidate [m]).filter fun w => w ∈ views).eraseDups := by
  unfold addModel mentioned
  cases hown : m.key.sameModel candidate with
  | true =>
    rw [if_pos rfl, others_own hown, List.flatMap_nil, List.append_nil, ← h]
    split <;> rfl
  | false =>
    rw [if_neg Bool.false_ne_true, others_other hown, List.flatMap_singleton]
    exact keptViews_foldl_addReference hp h m.key m.views

theorem keptViews_foldl_addModel (hp : Partitions views p)
    (h : p.keptViews = (seen.filter fun w => w ∈ views).eraseDups) (models : List ModelVersion) :
    (models.foldl (addModel candidate) p).keptViews =
      ((seen ++ mentioned candidate models).filter fun w => w ∈ views).eraseDups := by
  induction models generalizing seen p with
  | nil => simpa [mentioned, others] using h
  | cons m ms ih =>
    have hmentioned : mentioned candidate (m :: ms) =
        mentioned candidate [m] ++ mentioned candidate ms := by
      rw [mentioned, others_cons, List.flatMap_append]
      rfl
    rw [List.foldl_cons, ih (hp.addModel m) (keptViews_addModel hp h m), hmentioned,
      List.append_assoc]

theorem keptViews_compute (candidate : ModelVersion) (models : List ModelVersion) :
    (compute candidate models).keptViews =
      ((mentioned candidate.key models).filter fun v => v ∈ candidate.views).eraseDups := by
  have hstart : (start candidate).keptViews =
      (([] : List ViewKey).filter fun v => v ∈ candidate.views).eraseDups := rfl
  exact keptViews_foldl_addModel (partitions_start candidate) hstart models

theorem referencedViews_compute (candidate : ModelVersion) (models : List ModelVersion) :
    (compute candidate models).referencedViews =
      (compute candidate models).keptViews.map fun v =>
        ⟨referrers candidate.key models v, v⟩ := by
  have hentries := (records_compute candidate models).entry
  rw [keptViews, List.map_map]
  refine (List.map_id _).symm.trans (List.map_congr_left fun r hr => ?_)
  rw [Function.comp_apply, ← eraseDups_listers, ← hentries r hr]
  rfl

/-! The plan -/

/-- What a plan says if it counts the references of other models, and only those. -/
structure CountsReferences (candidate : ModelVersion) (models : List ModelVersion)
    (p : DeletionPlan) : Prop where
  deletable : p.deletableViews =
    candidate.views.eraseDups.filter fun v => ¬ListedElsewhere candidate.key models v
  kept : p.keptViews.Perm
    (candidate.views.eraseDups.filter fun v => ListedElsewhere candidate.key models v)
  referrers : ∀ r ∈ p.referencedViews,
    r.referencedBy = referrers candidate.key models r.view
  versions : p.modelVersions = candidate.key ::
    ((ownKeys candidate.key models).filter fun k => k ≠ candidate.key).eraseDups
  deletable_of_others :
    p.deletableViews = (compute candidate (others candidate.key models)).deletableViews
  kept_of_others :
    p.referencedViews = (compute candidate (others candidate.key models)).referencedViews

theorem countsReferences_compute (candidate : ModelVersion) (models : List ModelVersion) :
    CountsReferences candidate models (compute candidate models) := by
  have hmentioned : mentioned candidate.key (others candidate.key models) =
      mentioned candidate.key models := by rw [mentioned, others_others, mentioned]
  have hreferrers : referrers candidate.key (others candidate.key models) =
      referrers candidate.key models := by
    funext v
    rw [referrers, others_others, referrers]
  constructor
  · exact deletableViews_compute candidate models
  · refine (List.perm_ext_iff_of_nodup (records_compute candidate models).nodup
      ((nodup_eraseDups candidate.views).sublist List.filter_sublist)).2 fun v => ?_
    rw [mem_keptViews_compute, List.mem_filter, List.mem_eraseDups, decide_eq_true_iff]
  · intro r hr
    rw [(records_compute candidate models).entry r hr, eraseDups_listers]
  · rw [modelVersions_compute, List.eraseDups_cons]
    congr 2
    refine List.filter_congr fun k _ => ?_
    by_cases hk : k = candidate.key <;> simp [hk]
  · rw [deletableViews_compute, deletableViews_compute]
    refine List.filter_congr fun v _ => ?_
    simp only [listedElsewhere_iff_mem_mentioned, hmentioned]
  · rw [referencedViews_compute, referencedViews_compute, keptViews_compute, keptViews_compute,
      hmentioned, hreferrers]

end SchemaGraph.DeletionPlan
