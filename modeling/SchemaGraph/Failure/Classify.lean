import SchemaGraph.Failure.Basic
import SchemaGraph.Json.Printer
import SchemaGraph.Text.Basic

/-! The kind and the message of a failure. -/

namespace SchemaGraph

namespace FailedResponse

def breakingChanges (r : FailedResponse) : List ReportedError :=
  r.errors.filter fun e => e.breakingChangeInfo.isSome

def breakingMarker : String := "breaking changes"

def mentionsBreakingChanges (r : FailedResponse) : Bool :=
  Text.contains r.message breakingMarker ||
    r.errorMessage.any fun m => Text.contains m breakingMarker

end FailedResponse

def Json.asPlainText : Json → String
  | .string s => s
  | j => j.compact

def ReportedError.changeDescription (e : ReportedError) : String :=
  if e.message.isEmpty then (e.breakingChangeInfo.map Json.asPlainText).getD "" else e.message

def breakingChangeList (es : List ReportedError) : String :=
  "Breaking change(s):" ++ String.join (es.map fun e => "\n- " ++ e.changeDescription)

def describeMissing (ids : List (String × Json)) : String :=
  ", ".intercalate (ids.map fun e => e.1 ++ "=" ++ e.2.asPlainText)

def fallbackMessage (kind : FailureKind) (r : FailedResponse) : String :=
  match kind with
  | .notFound =>
    match r.missing with
    | some (ids :: more) =>
      "Resource not found: " ++ "; ".intercalate ((ids :: more).map describeMissing)
    | _ => "Resource not found."
  | .notAuthenticated => "You are not signed in."
  | .notAuthorized => "You do not have access to this resource."
  | .serverError => "The server failed to process the request."
  | .validation => "The request is invalid."
  | .breakingChange | .dmlError | .unknown =>
    "Unexpected error (status " ++ r.status.repr ++ ")."

def FailedResponse.kind (r : FailedResponse) : FailureKind :=
  if r.status = 400 then
    if r.mentionsBreakingChanges then .breakingChange
    else if r.missing.isSome then .notFound
    else .validation
  else if r.status = 409 then .validation
  else if r.status = 401 then .notAuthenticated
  else if r.status = 403 then .notAuthorized
  else if r.status = 404 then .notFound
  else if r.status = 500 then .serverError
  else .unknown

/-- Breaking changes that are spelled out come first, whatever the status. -/
def FailedResponse.classify (r : FailedResponse) : Failure :=
  match r.breakingChanges with
  | [] =>
    let message :=
      if r.resolvedMessage.isEmpty then fallbackMessage r.kind r else r.resolvedMessage
    { Failure.make r.kind message with status := some r.status }
  | es => { Failure.make .breakingChange (breakingChangeList es) with status := some r.status }

namespace Failure

def publishFailedMessage : String := "An error has occured. Data model was not published."

def ofDmlErrors? (es : List DmlError) : Option Failure :=
  if es.isEmpty then none else some (dml publishFailedMessage es)

/-- Why a model has no versions: it or its whole space is missing, or the question whether the
space exists has failed. -/
def ofEmptyListing (spaceExists : String → Except Failure Bool) (space model : String) : Failure :=
  match spaceExists space with
  | .ok true =>
    make .notFound ("Data model `" ++ model ++ "` does not exist in space `" ++ space ++ "`.")
  | .ok false => make .notFound ("Space `" ++ space ++ "` does not exist.")
  | .error f => f

end Failure

end SchemaGraph
