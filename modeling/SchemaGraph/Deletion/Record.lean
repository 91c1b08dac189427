import SchemaGraph.Deletion.Run
import SchemaGraph.Failure.Record
import SchemaGraph.Model.Record

/-! Plans, pages and reports as JSON records. -/

namespace SchemaGraph

open Json (Decoder)

namespace ReferencedView

def toJson (r : ReferencedView) : Json :=
  .object [("referencedBy", .array (r.referencedBy.map ModelKey.toJson)),
    ("view", r.view.toJson)]

def ofJson? : Decoder ReferencedView := fun j => do
  let r ← Json.record? ["referencedBy", "view"] j
  return {
    referencedBy := ← r.required "referencedBy" (Json.list? ModelKey.ofJson?)
    view := ← r.required "view" ViewKey.ofJson? }

end ReferencedView

namespace DeletionPlan

def toJson (p : DeletionPlan) : Json :=
  .object [("deletableViews", .array (p.deletableViews.map ViewKey.toJson)),
    ("modelVersions", .array (p.modelVersions.map ModelKey.toJson)),
    ("referencedViews", .array (p.referencedViews.map ReferencedView.toJson))]

def ofJson? : Decoder DeletionPlan := fun j => do
  let r ← Json.record? ["deletableViews", "modelVersions", "referencedViews"] j
  return {
    deletableViews := (← r.required "deletableViews" (Json.list? ViewKey.ofJson?)).eraseDups
    modelVersions := ← r.required "modelVersions" (Json.list? ModelKey.ofJson?)
    referencedViews := ← r.required "referencedViews" (Json.list? ReferencedView.ofJson?)
    nodup := nodup_eraseDups _ }

end DeletionPlan

def Page.ofJson? {α : Type} (item : Decoder α) : Decoder (Page α) := fun j => do
  let r ← Json.record? ["items", "nextCursor"] j
  return {
    items := ← r.required "items" (Json.list? item)
    nextCursor := ← r.optional "nextCursor" Json.string? }

def BatchOutcome.toJson (o : BatchOutcome) : Json :=
  let result : Json :=
    match o.result with
    | .ok _ => .object [("Ok", .null)]
    | .error f => .object [("Err", f.toJson)]
  .object [("batchIndex", .int o.batchIndex), ("items", .array (o.call.items.map Json.string)),
    ("kind", .string o.call.kind.tag), ("result", result)]

def CleanupReport.toJson (r : CleanupReport) : Json :=
  .object [("outcomes", .array (r.outcomes.map BatchOutcome.toJson))]

end SchemaGraph
