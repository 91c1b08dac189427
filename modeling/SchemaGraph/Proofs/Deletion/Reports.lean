import SchemaGraph.Proofs.Deletion.Batches
import SchemaGraph.Proofs.Deletion.References

/-! What a cleanup reports. Every batch of the plan has one outcome, that of its own call, and
which batches there are does not depend on what the service answers. -/

namespace SchemaGraph

def CleanupReport.ofKind (r : CleanupReport) (kind : ResourceKind) : List BatchOutcome :=
  r.outcomes.filter fun o => o.call.kind = kind

/-- Outcomes of batches that carry the keys in order, numbered from zero. None is empty, and all
but the last are full. -/
structure InBatches {α : Type} (keys : DeleteCall → List α) (render : α → String) (size : Nat)
    (xs : List α) (os : List BatchOutcome) : Prop where
  numbered : os.map BatchOutcome.batchIndex = List.range os.length
  bounded : ∀ o ∈ os, 1 ≤ (keys o.call).length ∧ (keys o.call).length ≤ size
  full : ∀ o ∈ os.dropLast, (keys o.call).length = size
  complete : (os.flatMap fun o => keys o.call) = xs
  items : ∀ o ∈ os, o.call.items = (keys o.call).map render

theorem map_call_outcomesOf (d : Deleter) (calls : List (Nat × DeleteCall)) :
    (outcomesOf d calls).map BatchOutcome.call = calls.map Prod.snd := by
  rw [outcomesOf, List.map_map]
  rfl

section Batches

variable {α : Type} (call : List α → DeleteCall) (d : Deleter) (size : BatchSize) (xs : List α)

theorem map_fst_batchCalls :
    (batchCalls call size xs).map Prod.fst = List.range (batches size xs).length := by
  rw [batchCalls, List.map_map, List.range_eq_range']
  exact List.zipIdx_map_snd 0 (batches size xs)

theorem map_call_batches : (outcomesOf d (batchCalls call size xs)).map BatchOutcome.call =
    (batches size xs).map call := by
  rw [map_call_outcomesOf, map_snd_batchCalls]

theorem exists_batch {o : BatchOutcome} (ho : o ∈ outcomesOf d (batchCalls call size xs)) :
    ∃ b ∈ batches size xs, call b = o.call :=
  List.mem_map.1 (map_call_batches call d size xs ▸ List.mem_map_of_mem ho)

theorem inBatches_outcomesOf {keys : DeleteCall → List α} {render : α → String}
    (hkeys : ∀ ks, keys (call ks) = ks) (hitems : ∀ ks, (call ks).items = ks.map render) :
    InBatches keys render size.val xs (outcomesOf d (batchCalls call size xs)) := by
  have hcalls := map_call_batches call d size xs
  constructor
  · have hlength := congrArg List.length hcalls
    rw [List.length_map, List.length_map] at hlength
    rw [hlength, ← map_fst_batchCalls call size xs, outcomesOf, List.map_map]
    rfl
  · intro o ho
    obtain ⟨b, hb, hbo⟩ := exists_batch call d size xs ho
    rw [← hbo, hkeys]
    exact length_of_mem_batches size xs b hb
  · intro o ho
    have hlast : (outcomesOf d (batchCalls call size xs)).dropLast.map BatchOutcome.call =
        (batches size xs).dropLast.map call := by
      rw [List.map_dropLast, hcalls, List.map_dropLast]
    obtain ⟨b, hb, hbo⟩ := List.mem_map.1 (hlast ▸ List.mem_map_of_mem ho)
    rw [← hbo, hkeys]
    exact length_of_mem_dropLast_batches size xs b hb
  · rw [← List.flatMap_map, map_call_outcomesOf]
    exact flatMap_batchCalls call keys hkeys size xs
  · intro o ho
    obtain ⟨b, -, hbo⟩ := exists_batch call d size xs ho
    rw [← hbo, hitems, hkeys]

theorem filter_kind_outcomesOf {kind : ResourceKind} (hkind : ∀ ks, (call ks).kind = kind)
    (k : ResourceKind) :
    ((outcomesOf d (batchCalls call size xs)).filter fun o => o.call.kind = k) =
      if kind = k then outcomesOf d (batchCalls call size xs) else [] := by
  have hall : ∀ o ∈ outcomesOf d (batchCalls call size xs), o.call.kind = kind := by
    intro o ho
    obtain ⟨b, -, hbo⟩ := exists_batch call d size xs ho
    rw [← hbo, hkind]
  split
  · rename_i h
    exact List.filter_eq_self.2 fun o ho => decide_eq_true ((hall o ho).trans h)
  · rename_i h
    refine List.filter_eq_nil_iff.2 fun o ho hk => h ?_
    exact (hall o ho).symm.trans (of_decide_eq_true hk)

end Batches

theorem nodup_kind_batchIndex {os : List BatchOutcome}
    (h : ∀ k, ((os.filter fun o => o.call.kind = k).map BatchOutcome.batchIndex).Nodup) :
    (os.map fun o => (o.call.kind, o.batchIndex)).Nodup := by
  induction os with
  | nil => exact List.nodup_nil
  | cons o os ih =>
    rw [List.map_cons, List.nodup_cons]
    refine ⟨fun hmem => ?_, ih fun k =>
      (h k).sublist (((List.sublist_cons_self o os).filter _).map _)⟩
    obtain ⟨o', ho', hsame⟩ := List.mem_map.1 hmem
    obtain ⟨hkind, hindex⟩ := Prod.mk.inj hsame
    have hkinds := h o.call.kind
    rw [List.filter_cons_of_pos (by simp), List.map_cons, List.nodup_cons] at hkinds
    exact hkinds.1 (hindex ▸ List.mem_map_of_mem
      (List.mem_filter.2 ⟨ho', decide_eq_true hkind⟩))

namespace DeletionPlan

section Run

variable (d : Deleter) (size : BatchSize) (p : DeletionPlan)

theorem outcomes_run_eq_append : (p.run d size).outcomes =
    outcomesOf d (batchCalls .views size p.deletableViews) ++
      outcomesOf d (batchCalls .containers size p.containers) ++
        outcomesOf d (batchCalls .modelVersions size p.modelVersions) := by
  rw [outcomes_run, calls, outcomesOf, List.map_append, List.map_append]
  rfl

theorem ofKind_run (k : ResourceKind) : (p.run d size).ofKind k =
    match k with
    | .view => outcomesOf d (batchCalls .views size p.deletableViews)
    | .container => outcomesOf d (batchCalls .containers size p.containers)
    | .modelVersion => outcomesOf d (batchCalls .modelVersions size p.modelVersions) := by
  rw [CleanupReport.ofKind, outcomes_run_eq_append, List.filter_append, List.filter_append,
    filter_kind_outcomesOf .views d size p.deletableViews (fun _ => rfl) k,
    filter_kind_outcomesOf .containers d size p.containers (fun _ => rfl) k,
    filter_kind_outcomesOf .modelVersions d size p.modelVersions (fun _ => rfl) k]
  cases k <;> simp

theorem inBatches_views : InBatches DeleteCall.viewKeys ViewKey.render size.val
    p.deletableViews ((p.run d size).ofKind .view) := by
  rw [ofKind_run]
  exact inBatches_outcomesOf .views d size _ (fun _ => rfl) fun _ => rfl

theorem inBatches_containers : InBatches DeleteCall.containerKeys ContainerKey.render size.val
    p.containers ((p.run d size).ofKind .container) := by
  rw [ofKind_run]
  exact inBatches_outcomesOf .containers d size _ (fun _ => rfl) fun _ => rfl

theorem inBatches_modelVersions : InBatches DeleteCall.modelKeys ModelKey.render size.val
    p.modelVersions ((p.run d size).ofKind .modelVersion) := by
  rw [ofKind_run]
  exact inBatches_outcomesOf .modelVersions d size _ (fun _ => rfl) fun _ => rfl

theorem nodup_batchIndex_ofKind (k : ResourceKind) :
    (((p.run d size).ofKind k).map BatchOutcome.batchIndex).Nodup := by
  cases k with
  | container => exact (inBatches_containers d size p).numbered ▸ List.nodup_range
  | modelVersion => exact (inBatches_modelVersions d size p).numbered ▸ List.nodup_range
  | view => exact (inBatches_views d size p).numbered ▸ List.nodup_range

end Run

/-- What a report says of a cleanup that loses and repeats nothing. The calls are those of the
plan, so the service has no say in them, and with its kind and number each has its own outcome. -/
structure Covers (p : DeletionPlan) (d : Deleter) (batchSize : Nat) (r : CleanupReport) :
    Prop where
  views : InBatches DeleteCall.viewKeys ViewKey.render (max 1 (min batchSize 100))
    p.deletableViews (r.ofKind .view)
  containers : InBatches DeleteCall.containerKeys ContainerKey.render (max 1 (min batchSize 100))
    p.containers (r.ofKind .container)
  versions : InBatches DeleteCall.modelKeys ModelKey.render (max 1 (min batchSize 100))
    p.modelVersions (r.ofKind .modelVersion)
  order : r.outcomes = r.ofKind .view ++ r.ofKind .container ++ r.ofKind .modelVersion
  calls : (r.outcomes.map fun o => (o.batchIndex, o.call)) = p.calls (.clamp batchSize)
  once : (r.outcomes.map fun o => (o.call.kind, o.batchIndex)).Nodup
  results : ∀ o ∈ r.outcomes, o.result = d o.batchIndex o.call
  containers_once : p.containers.Nodup
  containers_free : ∀ c ∈ p.containers, ∀ v ∈ p.keptViews, v.container ≠ c

theorem covers_run (p : DeletionPlan) (d : Deleter) (batchSize : Nat) :
    p.Covers d batchSize (p.run d (.clamp batchSize)) where
  views := inBatches_views d (.clamp batchSize) p
  containers := inBatches_containers d (.clamp batchSize) p
  versions := inBatches_modelVersions d (.clamp batchSize) p
  order := by
    rw [ofKind_run, ofKind_run, ofKind_run]
    exact outcomes_run_eq_append d (.clamp batchSize) p
  calls := by
    rw [outcomes_run, outcomesOf, List.map_map]
    exact List.map_id _
  once := nodup_kind_batchIndex (nodup_batchIndex_ofKind d (.clamp batchSize) p)
  results := by
    intro o ho
    rw [outcomes_run] at ho
    obtain ⟨c, -, rfl⟩ := List.mem_map.1 ho
    rfl
  containers_once := nodup_eraseDups _
  containers_free c hc := ((mem_containers p c).1 hc).2

end DeletionPlan

end SchemaGraph
