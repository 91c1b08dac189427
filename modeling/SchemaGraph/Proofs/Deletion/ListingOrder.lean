import SchemaGraph.Proofs.Deletion.KeptViews
import SchemaGraph.Proofs.Deletion.Safety

/-! What a deletion does not depend on. Listings that come to the same models, in any order and cut
into any pages, lead to the same batches of views and of containers, and to the same versions and
references but for their order. -/

namespace SchemaGraph

open DeletionPlan Request

namespace Request

def kind? : Request → Option ResourceKind
  | .fetch _ => none
  | .delete _ call => some call.kind

def batchesOf (kind : ResourceKind) (requests : List Request) : List Request :=
  requests.filter fun r => r.kind? = some kind

theorem batchesOf_append (kind : ResourceKind) (as bs : List Request) :
    batchesOf kind (as ++ bs) = batchesOf kind as ++ batchesOf kind bs :=
  List.filter_append as bs

theorem batchesOf_fetches (kind : ResourceKind) (cursors : List (Option String)) :
    batchesOf kind (cursors.map .fetch) = [] := by
  refine List.filter_eq_nil_iff.2 fun r hr => ?_
  obtain ⟨cursor, -, rfl⟩ := List.mem_map.1 hr
  simp [kind?]

end Request

theorem mem_batchCalls {α : Type} {call : List α → DeleteCall} {size : BatchSize} {xs : List α}
    {c : Nat × DeleteCall} (h : c ∈ batchCalls call size xs) : ∃ batch, c.2 = call batch := by
  obtain ⟨b, -, rfl⟩ := List.mem_map.1 h
  exact ⟨b.1, rfl⟩

theorem filter_batchCalls {α : Type} (call : List α → DeleteCall) {own : ResourceKind}
    (hown : ∀ batch, (call batch).kind = own) (size : BatchSize) (xs : List α)
    (kind : ResourceKind) : (batchCalls call size xs).filter (fun c => c.2.kind = kind) =
      if own = kind then batchCalls call size xs else [] := by
  have hkind : ∀ c ∈ batchCalls call size xs, c.2.kind = own := by
    intro c hc
    obtain ⟨batch, hbatch⟩ := mem_batchCalls hc
    rw [hbatch, hown]
  split
  · rename_i h
    exact List.filter_eq_self.2 fun c hc => by simp [hkind c hc, h]
  · rename_i h
    exact List.filter_eq_nil_iff.2 fun c hc => by simp [hkind c hc, h]

namespace DeletionPlan

section Calls

variable (size : BatchSize) (p : DeletionPlan)

theorem filter_view_calls : (p.calls size).filter (fun c => c.2.kind = .view) =
    batchCalls .views size p.deletableViews := by
  unfold calls
  rw [List.filter_append, List.filter_append, filter_batchCalls .views fun _ => rfl,
    filter_batchCalls .containers fun _ => rfl, filter_batchCalls .modelVersions fun _ => rfl]
  exact (List.append_nil _).trans (List.append_nil _)

theorem filter_container_calls : (p.calls size).filter (fun c => c.2.kind = .container) =
    batchCalls .containers size p.containers := by
  unfold calls
  rw [List.filter_append, List.filter_append, filter_batchCalls .views fun _ => rfl,
    filter_batchCalls .containers fun _ => rfl, filter_batchCalls .modelVersions fun _ => rfl]
  exact List.append_nil _

theorem batchesOf_calls (kind : ResourceKind) :
    batchesOf kind ((p.calls size).map fun c => .delete c.1 c.2) =
      ((p.calls size).filter fun c => c.2.kind = kind).map fun c => .delete c.1 c.2 := by
  rw [batchesOf, List.filter_map]
  congr 2
  funext c
  simp [kind?]

end Calls

section Models

variable {candidate : ModelVersion} {models models' : List ModelVersion}
  (h : ∀ m, m ∈ models ↔ m ∈ models')
include h

theorem listedElsewhere_congr (key : ModelKey) (v : ViewKey) :
    ListedElsewhere key models v ↔ ListedElsewhere key models' v :=
  exists_congr fun m => and_congr_left fun _ => h m

theorem deletableViews_compute_congr :
    (compute candidate models).deletableViews = (compute candidate models').deletableViews := by
  rw [deletableViews_compute, deletableViews_compute]
  refine List.filter_congr fun v _ => ?_
  exact decide_eq_decide.2 (not_congr (listedElsewhere_congr h candidate.key v))

theorem keptViews_compute_perm :
    (compute candidate models).keptViews.Perm (compute candidate models').keptViews := by
  refine (List.perm_ext_iff_of_nodup (records_compute candidate models).nodup
    (records_compute candidate models').nodup).2 fun v => ?_
  rw [mem_keptViews_compute, mem_keptViews_compute]
  exact and_congr_right fun _ => listedElsewhere_congr h candidate.key v

theorem containers_compute_congr :
    (compute candidate models).containers = (compute candidate models').containers := by
  have hretained : ∀ c, (compute candidate models).retainedContainers.contains c =
      (compute candidate models').retainedContainers.contains c := by
    intro c
    rw [retainedContainers_eq, retainedContainers_eq]
    exact ((keptViews_compute_perm h).map ViewKey.container).contains_eq
  unfold containers
  simp only [deletableViews_compute_congr h, hretained]

theorem modelVersions_compute_perm :
    (compute candidate models).modelVersions.Perm (compute candidate models').modelVersions := by
  refine (List.perm_ext_iff_of_nodup (nodup_modelVersions_compute candidate models)
    (nodup_modelVersions_compute candidate models')).2 fun key => ?_
  rw [mem_modelVersions_compute, mem_modelVersions_compute]
  refine or_congr_right (and_congr_right fun _ => ?_)
  exact exists_congr fun m => and_congr_left fun _ => h m

theorem mem_referencedBy_compute_congr {r r' : ReferencedView}
    (hr : r ∈ (compute candidate models).referencedViews)
    (hr' : r' ∈ (compute candidate models').referencedViews) (hview : r.view = r'.view)
    (key : ModelKey) : key ∈ r.referencedBy ↔ key ∈ r'.referencedBy := by
  rw [mem_referencedBy_compute hr, mem_referencedBy_compute hr', hview]
  exact exists_congr fun m => and_congr_left fun _ => h m

end Models

end DeletionPlan

/-- Two deletions, by their plans and by what they ask of the services. Views and containers are
handed over in the same batches; versions and references may come in another order. -/
structure DeletesAlike (p p' : DeletionPlan) (requests requests' : List Request) : Prop where
  views : batchesOf .view requests = batchesOf .view requests'
  containers : batchesOf .container requests = batchesOf .container requests'
  versions : (deletedVersions requests).Perm (deletedVersions requests')
  kept : p.keptViews.Perm p'.keptViews
  references : ∀ r ∈ p.referencedViews, ∀ r' ∈ p'.referencedViews, r.view = r'.view →
    ∀ key, key ∈ r.referencedBy ↔ key ∈ r'.referencedBy

section Deletion

variable (d : Deleter) (size : BatchSize) (candidate : ModelVersion)

theorem batchesOf_deletion {listing : Script ModelVersion} {pages : List (Page ModelVersion)}
    (h : listing.Delivers pages) (kind : ResourceKind) :
    batchesOf kind (deletion d size candidate listing).2 =
      (((compute candidate (pages.flatMap Page.items)).calls size).filter fun c =>
        c.2.kind = kind).map fun c => .delete c.1 c.2 := by
  rw [show (deletion d size candidate listing).2 = _ from
      congrArg Prod.snd (deletion_of_delivers d size candidate h),
    batchesOf_append, batchesOf_fetches, List.nil_append, batchesOf_calls]

theorem deletedVersions_deletion {listing : Script ModelVersion}
    {pages : List (Page ModelVersion)} (h : listing.Delivers pages) :
    deletedVersions (deletion d size candidate listing).2 =
      (compute candidate (pages.flatMap Page.items)).modelVersions := by
  rw [show (deletion d size candidate listing).2 = _ from
      congrArg Prod.snd (deletion_of_delivers d size candidate h),
    deletedVersions, deleteCalls_append, deleteCalls_fetches, List.nil_append,
    deleteCalls_deletes, flatMap_modelKeys_calls]

end Deletion

/-- It matters which models are listed, but not in which order, how often and on which page. -/
theorem deletesAlike_of_same_models (d : Deleter) (batchSize : Nat) (candidate : ModelVersion)
    {listing listing' : Script ModelVersion} {pages pages' : List (Page ModelVersion)}
    (h : listing.Delivers pages) (h' : listing'.Delivers pages')
    (hsame : ∀ m, m ∈ pages.flatMap Page.items ↔ m ∈ pages'.flatMap Page.items) :
    let run := deletion d (.clamp batchSize) candidate listing
    let run' := deletion d (.clamp batchSize) candidate listing'
    ∃ plan report plan' report', run.1 = .ok (plan, report) ∧ run'.1 = .ok (plan', report') ∧
      DeletesAlike plan plan' run.2 run'.2 := by
  intro run run'
  have hrun := congrArg Prod.fst (deletion_of_delivers d (.clamp batchSize) candidate h)
  have hrun' := congrArg Prod.fst (deletion_of_delivers d (.clamp batchSize) candidate h')
  refine ⟨_, _, _, _, hrun, hrun', ?_⟩
  constructor
  · rw [batchesOf_deletion d _ candidate h, batchesOf_deletion d _ candidate h',
      filter_view_calls, filter_view_calls, deletableViews_compute_congr hsame]
  · rw [batchesOf_deletion d _ candidate h, batchesOf_deletion d _ candidate h',
      filter_container_calls, filter_container_calls, containers_compute_congr hsame]
  · rw [deletedVersions_deletion d _ candidate h, deletedVersions_deletion d _ candidate h']
    exact modelVersions_compute_perm hsame
  · exact keptViews_compute_perm hsame
  · intro r hr r' hr' hview key
    exact mem_referencedBy_compute_congr hsame hr hr' hview key

/-- The reader is on the first page of one listing and on the last of the other, where a version of
the model comes twice; nothing can be deleted. -/
theorem deletesAlike_of_repeated_version :
    let view : String → ViewKey := fun name => ⟨name, "blog", "1"⟩
    let owner : ModelVersion := ⟨0, "Owner", "", "blog", "2", [view "Post", view "Person"]⟩
    let older : ModelVersion := { owner with version := "1" }
    let reader : ModelVersion := ⟨0, "Reader", "", "blog", "1", [view "Person", view "Tag"]⟩
    let page : Page ModelVersion := ⟨[reader, older], none⟩
    let first : Page ModelVersion := ⟨[older], some "next"⟩
    let last : Page ModelVersion := ⟨[older, reader], none⟩
    let d : Deleter := fun _ _ => .error Script.exhausted
    let run := deletion d (.clamp 1) owner [.ok page]
    let run' := deletion d (.clamp 1) owner [.ok first, .ok last]
    Script.Delivers [.ok page] [page] ∧ Script.Delivers [.ok first, .ok last] [first, last] ∧
      (∀ m, m ∈ [page].flatMap Page.items ↔ m ∈ [first, last].flatMap Page.items) ∧
        ∃ plan report plan' report', run.1 = .ok (plan, report) ∧ run'.1 = .ok (plan', report') ∧
          DeletesAlike plan plan' run.2 run'.2 := by
  intro view owner older reader page first last d run run'
  have hpage : Script.Delivers [.ok page] [page] := .last rfl
  have hpages : Script.Delivers [.ok first, .ok last] [first, last] := .more rfl (.last rfl)
  have hsame : ∀ m, m ∈ [page].flatMap Page.items ↔ m ∈ [first, last].flatMap Page.items := by
    intro m
    show m ∈ [reader, older] ↔ m ∈ [older, older, reader]
    simp only [List.mem_cons, List.not_mem_nil, or_false]
    exact or_comm.trans or_self_left.symm
  exact ⟨hpage, hpages, hsame, deletesAlike_of_same_models d 1 owner hpage hpages hsame⟩

end SchemaGraph
