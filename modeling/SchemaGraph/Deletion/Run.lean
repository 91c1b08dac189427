import SchemaGraph.Deletion.Cleanup
import SchemaGraph.Deletion.Listing

/-! The deletion of a model from beginning to end. Nothing is decided, and nothing deleted,
before the whole listing is known. -/

namespace SchemaGraph

def planDeletion (candidate : ModelVersion) (listing : Script ModelVersion) :
    Except Failure DeletionPlan × List (Option String) :=
  let (models, cursors) := listing.drain none
  (models.map (DeletionPlan.compute candidate), cursors)

namespace Request

def cursor? : Request → Option (Option String)
  | .fetch cursor => some cursor
  | .delete .. => none

def call? : Request → Option DeleteCall
  | .fetch _ => none
  | .delete _ call => some call

end Request

def deletion (d : Deleter) (size : BatchSize) (candidate : ModelVersion)
    (listing : Script ModelVersion) :
    Except Failure (DeletionPlan × CleanupReport) × List Request :=
  let (plan, cursors) := planDeletion candidate listing
  let fetches := cursors.map Request.fetch
  match plan with
  | .error f => (.error f, fetches)
  | .ok p =>
    let (report, requests) := p.cleanUp d size fetches
    (.ok (p, report), requests)

def deleteModel (d : Deleter) (size : BatchSize) (candidate : ModelVersion)
    (listing : Script ModelVersion) :
    Except Failure (DeletionPlan × CleanupReport) × List (Option String) :=
  let (outcome, requests) := deletion d size candidate listing
  (outcome, requests.filterMap Request.cursor?)

end SchemaGraph
