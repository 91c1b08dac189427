import SchemaGraph.Distinct
import SchemaGraph.Model.Version

/-! What may be deleted together with a model. A view that another model lists is kept, and with
it the container that holds its data, whichever version of the view is meant. -/

namespace SchemaGraph

structure ReferencedView where
  referencedBy : List ModelKey
  view : ViewKey
  deriving DecidableEq

structure DeletionPlan where
  deletableViews : List ViewKey
  modelVersions : List ModelKey
  referencedViews : List ReferencedView
  nodup : deletableViews.Nodup
  deriving DecidableEq

namespace DeletionPlan

def retainedContainers (p : DeletionPlan) : List ContainerKey :=
  p.referencedViews.map fun r => r.view.container

/-- The containers of the deletable views, but not those of views that are kept. -/
def containers (p : DeletionPlan) : List ContainerKey :=
  ((p.deletableViews.map ViewKey.container).filter
    fun c => !p.retainedContainers.contains c).eraseDups

def addReference (key : ModelKey) (p : DeletionPlan) (v : ViewKey) : DeletionPlan :=
  if p.deletableViews.contains v then
    { p with
      deletableViews := p.deletableViews.filter (· ≠ v)
      referencedViews := p.referencedViews ++ [⟨[key], v⟩]
      nodup := p.nodup.sublist List.filter_sublist }
  else
    { p with referencedViews := p.referencedViews.map fun r =>
        if r.view = v ∧ !r.referencedBy.contains key then
          { r with referencedBy := r.referencedBy ++ [key] }
        else r }

/-- Goes on with the next model of the listing. Versions of the model to delete are deleted with
it and keep nothing. -/
def addModel (candidate : ModelKey) (p : DeletionPlan) (m : ModelVersion) : DeletionPlan :=
  if m.key.sameModel candidate then
    if p.modelVersions.contains m.key then p
    else { p with modelVersions := p.modelVersions ++ [m.key] }
  else m.views.foldl (addReference m.key) p

def start (candidate : ModelVersion) : DeletionPlan :=
  ⟨candidate.views.eraseDups, [candidate.key], [], nodup_eraseDups candidate.views⟩

def compute (candidate : ModelVersion) (models : List ModelVersion) : DeletionPlan :=
  models.foldl (addModel candidate.key) (start candidate)

end DeletionPlan

end SchemaGraph
