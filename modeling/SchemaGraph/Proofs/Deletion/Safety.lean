import SchemaGraph.Proofs.Deletion.Batches
import SchemaGraph.Proofs.Deletion.Listing
import SchemaGraph.Proofs.Deletion.References

/-! A deletion as a whole. If the listing fails, nothing is deleted; if it does not, the calls
hand over exactly the views that are free and the versions of the model, each of them once,
whatever the service answers. -/

namespace SchemaGraph

open DeletionPlan Request

structure DeletesExactly (candidate : ModelVersion) (models : List ModelVersion)
    (requests : List Request) : Prop where
  views_free : ∀ v ∈ deletedViews requests,
    v ∈ candidate.views ∧ ¬ListedElsewhere candidate.key models v
  views_once : ∀ v ∈ candidate.views, ¬ListedElsewhere candidate.key models v →
    (deletedViews requests).count v = 1
  versions_own : ∀ k, k ∈ deletedVersions requests ↔
    k = candidate.key ∨ k.sameModel candidate.key = true ∧ ∃ m ∈ models, m.key = k
  versions_once : ∀ k ∈ deletedVersions requests, (deletedVersions requests).count k = 1

variable (d : Deleter) (size : BatchSize) (candidate : ModelVersion)

theorem deletion_of_failsWith {listing : Script ModelVersion} {f : Failure}
    (h : listing.FailsWith f) :
    deletion d size candidate listing =
      (.error f, (listing.drain none).2.map .fetch) := by
  have hdrain := h.drain_eq none
  unfold deletion planDeletion
  generalize listing.drain none = answer at hdrain
  obtain ⟨models, cursors⟩ := answer
  subst hdrain
  rfl

theorem deletion_of_delivers {listing : Script ModelVersion} {pages : List (Page ModelVersion)}
    (h : listing.Delivers pages) :
    let p := compute candidate (pages.flatMap Page.items)
    deletion d size candidate listing = (.ok (p, p.run d size),
      (listing.drain none).2.map .fetch ++ (p.calls size).map fun c => .delete c.1 c.2) := by
  unfold deletion planDeletion
  rw [h.drain_eq none]
  simp only [Except.map, cleanUp_eq]

theorem deletesExactly_of_calls (models : List ModelVersion) {requests : List Request}
    (h : deleteCalls requests = ((compute candidate models).calls size).map Prod.snd) :
    DeletesExactly candidate models requests := by
  have hviews : deletedViews requests = (compute candidate models).deletableViews := by
    rw [deletedViews, h, flatMap_viewKeys_calls]
  have hversions : deletedVersions requests = (compute candidate models).modelVersions := by
    rw [deletedVersions, h, flatMap_modelKeys_calls]
  constructor
  · intro v hv
    rw [hviews] at hv
    exact (mem_deletableViews_compute candidate models v).1 hv
  · intro v hv hfree
    have hmem := (mem_deletableViews_compute candidate models v).2 ⟨hv, hfree⟩
    rw [hviews, (compute candidate models).nodup.count, if_pos hmem]
  · intro k
    rw [hversions]
    exact mem_modelVersions_compute candidate models k
  · intro k hk
    rw [hversions] at hk ⊢
    rw [(nodup_modelVersions_compute candidate models).count, if_pos hk]

/-- Whatever the listing holds, the batch size asked for and the answers of the service. -/
theorem deletion_fails_or_deletesExactly (d : Deleter) (batchSize : Nat) (candidate : ModelVersion)
    (listing : Script ModelVersion) :
    let run := deletion d (.clamp batchSize) candidate listing
    (∃ f, listing.FailsWith f ∧ run.1 = .error f ∧ deleteCalls run.2 = []) ∨
      ∃ pages plan report, listing.Delivers pages ∧ run.1 = .ok (plan, report) ∧
        DeletesExactly candidate (pages.flatMap Page.items) run.2 := by
  intro run
  rcases listing.delivers_or_failsWith with ⟨pages, hpages⟩ | ⟨f, hf⟩
  -- Either way the fetches come first and delete nothing.
  · have hrun := deletion_of_delivers d (.clamp batchSize) candidate hpages
    refine .inr ⟨pages, _, _, hpages, congrArg Prod.fst hrun, ?_⟩
    refine deletesExactly_of_calls (.clamp batchSize) candidate _ ?_
    rw [show run.2 = _ from congrArg Prod.snd hrun, deleteCalls_append, deleteCalls_fetches,
      List.nil_append, deleteCalls_deletes]
  · have hrun := deletion_of_failsWith d (.clamp batchSize) candidate hf
    refine .inl ⟨f, hf, congrArg Prod.fst hrun, ?_⟩
    rw [show run.2 = _ from congrArg Prod.snd hrun]
    exact deleteCalls_fetches _

end SchemaGraph
