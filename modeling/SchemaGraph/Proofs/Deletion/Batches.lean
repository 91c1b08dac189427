import SchemaGraph.Deletion.Run

/-! What the calls of a plan hand over. Batches lose and repeat nothing, so all calls for one
kind together carry the plan's list for that kind. -/

namespace SchemaGraph

namespace DeleteCall

def viewKeys : DeleteCall → List ViewKey
  | .views keys => keys
  | _ => []

def containerKeys : DeleteCall → List ContainerKey
  | .containers keys => keys
  | _ => []

def modelKeys : DeleteCall → List ModelKey
  | .modelVersions keys => keys
  | _ => []

end DeleteCall

namespace Request

def deleteCalls (requests : List Request) : List DeleteCall := requests.filterMap call?

def deletedViews (requests : List Request) : List ViewKey :=
  (deleteCalls requests).flatMap DeleteCall.viewKeys

def deletedVersions (requests : List Request) : List ModelKey :=
  (deleteCalls requests).flatMap DeleteCall.modelKeys

theorem deleteCalls_append (as bs : List Request) :
    deleteCalls (as ++ bs) = deleteCalls as ++ deleteCalls bs :=
  List.filterMap_append

@[simp] theorem deleteCalls_fetches (cursors : List (Option String)) :
    deleteCalls (cursors.map .fetch) = [] := by
  induction cursors with
  | nil => rfl
  | cons cursor cursors ih => exact ih

@[simp] theorem deleteCalls_deletes (calls : List (Nat × DeleteCall)) :
    deleteCalls (calls.map fun c => .delete c.1 c.2) = calls.map Prod.snd := by
  induction calls with
  | nil => rfl
  | cons c calls ih => exact congrArg (List.cons c.2) ih

end Request

/-! What one call after another comes to -/

def outcomesOf (d : Deleter) (calls : List (Nat × DeleteCall)) : List BatchOutcome :=
  calls.map fun c => ⟨c.1, c.2, d c.1 c.2⟩

/-- No answer keeps a later call from being made, and every call is written down once. -/
theorem Deleter.askAll_eq (d : Deleter) (calls : List (Nat × DeleteCall)) (log : List Request) :
    d.askAll calls log = (outcomesOf d calls, log ++ calls.map fun c => .delete c.1 c.2) := by
  induction calls generalizing log with
  | nil => exact congrArg _ (List.append_nil log).symm
  | cons c calls ih =>
    rw [askAll]
    dsimp only [ask]
    rw [ih, List.append_assoc]
    rfl

theorem DeletionPlan.cleanUp_eq (d : Deleter) (size : BatchSize) (p : DeletionPlan)
    (log : List Request) : p.cleanUp d size log =
      (p.run d size, log ++ (p.calls size).map fun c => .delete c.1 c.2) := by
  rw [run, cleanUp, cleanUp, Deleter.askAll_eq, Deleter.askAll_eq]

theorem DeletionPlan.outcomes_run (d : Deleter) (size : BatchSize) (p : DeletionPlan) :
    (p.run d size).outcomes = outcomesOf d (p.calls size) := by
  rw [run, cleanUp, Deleter.askAll_eq]

/-! The sizes of batches -/

section Sizes

variable {α : Type} (size : BatchSize) (xs : List α)

theorem batches_eq_nil_iff : batches size xs = [] ↔ xs = [] := by
  cases xs with
  | nil => rw [batches, eq_self, eq_self]
  | cons x rest => rw [batches, eq_false (List.cons_ne_nil _ _), eq_false (List.cons_ne_nil _ _)]

theorem length_of_mem_batches : ∀ b ∈ batches size xs, 1 ≤ b.length ∧ b.length ≤ size.val := by
  fun_induction batches size xs with
  | case1 => exact fun _ hb => absurd hb List.not_mem_nil
  | case2 x rest ih =>
    refine List.forall_mem_cons.2 ⟨?_, ih⟩
    have := size.pos
    rw [List.length_take, List.length_cons]
    omega

theorem length_of_mem_dropLast_batches :
    ∀ b ∈ (batches size xs).dropLast, b.length = size.val := by
  fun_induction batches size xs with
  | case1 => exact fun _ hb => absurd hb List.not_mem_nil
  | case2 x rest ih =>
    by_cases hmore : (x :: rest).drop size.val = []
    · rw [(batches_eq_nil_iff size _).2 hmore]
      exact fun _ hb => absurd hb List.not_mem_nil
    -- A batch that is not the last has something after it, so it is full.
    · rw [List.dropLast_cons_of_ne_nil (mt (batches_eq_nil_iff size _).1 hmore)]
      refine List.forall_mem_cons.2 ⟨?_, ih⟩
      rw [List.drop_eq_nil_iff] at hmore
      rw [List.length_take]
      omega

end Sizes

theorem map_snd_batchCalls {α : Type} (call : List α → DeleteCall) (size : BatchSize)
    (xs : List α) : (batchCalls call size xs).map Prod.snd = (batches size xs).map call := by
  have h := congrArg (List.map call) (List.zipIdx_map_fst 0 (batches size xs))
  simpa only [batchCalls, List.map_map, Function.comp_def] using h

theorem flatMap_batchCalls {α : Type} (call : List α → DeleteCall)
    (keys : DeleteCall → List α) (hkeys : ∀ ks, keys (call ks) = ks) (size : BatchSize)
    (xs : List α) : ((batchCalls call size xs).map Prod.snd).flatMap keys = xs := by
  rw [map_snd_batchCalls, List.flatMap_map]
  simp only [hkeys, List.flatMap_id']
  exact flatten_batches size xs

theorem flatMap_batchCalls_eq_nil {α β : Type} (call : List α → DeleteCall)
    (keys : DeleteCall → List β) (hkeys : ∀ ks, keys (call ks) = []) (size : BatchSize)
    (xs : List α) : ((batchCalls call size xs).map Prod.snd).flatMap keys = [] := by
  rw [map_snd_batchCalls, List.flatMap_map]
  simp only [hkeys, List.flatMap_eq_nil_iff, implies_true]

namespace DeletionPlan

variable (size : BatchSize) (p : DeletionPlan)

theorem flatMap_viewKeys_calls :
    ((p.calls size).map Prod.snd).flatMap DeleteCall.viewKeys = p.deletableViews := by
  simp only [calls, List.map_append, List.flatMap_append]
  rw [flatMap_batchCalls .views _ fun _ => rfl,
    flatMap_batchCalls_eq_nil .containers _ fun _ => rfl,
    flatMap_batchCalls_eq_nil .modelVersions _ fun _ => rfl, List.append_nil, List.append_nil]

theorem flatMap_modelKeys_calls :
    ((p.calls size).map Prod.snd).flatMap DeleteCall.modelKeys = p.modelVersions := by
  simp only [calls, List.map_append, List.flatMap_append]
  rw [flatMap_batchCalls_eq_nil .views _ fun _ => rfl,
    flatMap_batchCalls_eq_nil .containers _ fun _ => rfl,
    flatMap_batchCalls .modelVersions _ fun _ => rfl, List.nil_append, List.nil_append]

end DeletionPlan

end SchemaGraph
