import SchemaGraph.Deletion.Plan

/-! Deleting what a plan allows, in batches. The calls follow from the plan alone: a batch that
fails does not keep the others from being deleted. -/

namespace SchemaGraph

inductive ResourceKind where
  | container
  | modelVersion
  | view
  deriving DecidableEq

def ResourceKind.describe : ResourceKind → String
  | .container => "container"
  | .modelVersion => "data model version"
  | .view => "view"

def ResourceKind.tag : ResourceKind → String
  | .container => "container"
  | .modelVersion => "dataModelVersion"
  | .view => "view"

def largestBatch : Nat := 100

structure BatchSize where
  val : Nat
  pos : 1 ≤ val
  le_largest : val ≤ largestBatch

def BatchSize.clamp (n : Nat) : BatchSize :=
  ⟨max 1 (min n largestBatch), Nat.le_max_left .., by simp only [largestBatch]; omega⟩

def batches {α : Type} (size : BatchSize) (xs : List α) : List (List α) :=
  match xs with
  | [] => []
  | x :: rest => (x :: rest).take size.val :: batches size ((x :: rest).drop size.val)
termination_by xs.length
decreasing_by
  have := size.pos
  simp only [List.length_drop, List.length_cons]
  omega

theorem flatten_batches {α : Type} (size : BatchSize) (xs : List α) :
    (batches size xs).flatten = xs := by
  fun_induction batches size xs with
  | case1 => rfl
  | case2 x rest ih => rw [List.flatten_cons, ih, List.take_append_drop]

inductive DeleteCall where
  | containers (keys : List ContainerKey)
  | modelVersions (keys : List ModelKey)
  | views (keys : List ViewKey)
  deriving DecidableEq

namespace DeleteCall

def kind : DeleteCall → ResourceKind
  | .containers _ => .container
  | .modelVersions _ => .modelVersion
  | .views _ => .view

def items : DeleteCall → List String
  | .containers keys => keys.map ContainerKey.render
  | .modelVersions keys => keys.map ModelKey.render
  | .views keys => keys.map ViewKey.render

end DeleteCall

inductive Request where
  | fetch (cursor : Option String)
  | delete (batchIndex : Nat) (call : DeleteCall)
  deriving DecidableEq

abbrev Deleter := Nat → DeleteCall → Except Failure Unit

structure BatchOutcome where
  batchIndex : Nat
  call : DeleteCall
  result : Except Failure Unit

def BatchOutcome.isSuccess (o : BatchOutcome) : Bool :=
  match o.result with
  | .ok _ => true
  | .error _ => false

structure CleanupReport where
  outcomes : List BatchOutcome

namespace CleanupReport

def failures (r : CleanupReport) : List BatchOutcome := r.outcomes.filter fun o => !o.isSuccess

def isComplete (r : CleanupReport) : Bool := r.outcomes.all BatchOutcome.isSuccess

end CleanupReport

/-- A call is answered and written down in one step. -/
def Deleter.ask (d : Deleter) (c : Nat × DeleteCall) (log : List Request) :
    Except Failure Unit × List Request :=
  (d c.1 c.2, log ++ [.delete c.1 c.2])

def Deleter.askAll (d : Deleter) :
    List (Nat × DeleteCall) → List Request → List BatchOutcome × List Request
  | [], log => ([], log)
  | c :: calls, log =>
    let (result, log) := d.ask c log
    let (outcomes, log) := d.askAll calls log
    (⟨c.1, c.2, result⟩ :: outcomes, log)

def batchCalls {α : Type} (call : List α → DeleteCall) (size : BatchSize) (xs : List α) :
    List (Nat × DeleteCall) :=
  (batches size xs).zipIdx.map fun b => (b.2, call b.1)

namespace DeletionPlan

def calls (size : BatchSize) (p : DeletionPlan) : List (Nat × DeleteCall) :=
  batchCalls .views size p.deletableViews ++ batchCalls .containers size p.containers ++
    batchCalls .modelVersions size p.modelVersions

def cleanUp (d : Deleter) (size : BatchSize) (p : DeletionPlan) (log : List Request) :
    CleanupReport × List Request :=
  let (outcomes, log) := d.askAll (p.calls size) log
  (⟨outcomes⟩, log)

def run (d : Deleter) (size : BatchSize) (p : DeletionPlan) : CleanupReport :=
  (p.cleanUp d size []).1

end DeletionPlan

end SchemaGraph
