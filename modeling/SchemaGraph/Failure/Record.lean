import SchemaGraph.Failure.Classify
import SchemaGraph.Json.Reader
import SchemaGraph.Json.Record

/-! Failed responses and failures as JSON records. -/

namespace SchemaGraph

open Json (Decoder)

namespace Json

def any? : Decoder Json := canonical

def members? : Decoder (List (String × Json)) := fun j =>
  match canonical j with
  | some (.object ms) => some ms
  | _ => none

end Json

namespace DmlLocation

def toJson (l : DmlLocation) : Json := .object [("column", .int l.column), ("line", .int l.line)]

def ofJson? : Decoder DmlLocation := fun j => do
  let r ← Json.record? ["column", "line"] j
  return {
    column := ← r.required "column" (Json.bits? 32)
    line := ← r.required "line" (Json.bits? 32) }

end DmlLocation

namespace DmlError

def toJson (e : DmlError) : Json :=
  .object [("hint", Json.ofOption .string e.hint), ("kind", .string e.kind),
    ("location", e.location.toJson), ("message", .string e.message)]

def ofJson? : Decoder DmlError := fun j => do
  let r ← Json.record? ["hint", "kind", "location", "message"] j
  return {
    hint := ← r.withDefault "hint" (Json.nullable? Json.string?) none
    kind := ← r.required "kind" Json.string?
    location := ← r.withDefault "location" DmlLocation.ofJson? ⟨0, 0⟩
    message := ← r.required "message" Json.string? }

end DmlError

namespace Failure

def toJson (f : Failure) : Json :=
  .object [("dml_errors", .array (f.dmlErrors.map DmlError.toJson)), ("kind", .string f.kind.tag),
    ("message", .string f.message), ("status", Json.ofOption (fun n => .int n) f.status)]

end Failure

namespace Extensions

def toJson (e : Extensions) : Json :=
  .object [("breakingChangeInfo", Json.ofOption id e.breakingChangeInfo)]

def ofJson? : Decoder Extensions := fun j => do
  let r ← Json.record? ["breakingChangeInfo"] j
  return {
    breakingChangeInfo := ← r.withDefault "breakingChangeInfo" (Json.nullable? Json.any?) none }

end Extensions

namespace ReportedError

def toJson (e : ReportedError) : Json :=
  .object [("extensions", Json.ofOption Extensions.toJson e.extensions),
    ("message", .string e.message)]

def ofJson? : Decoder ReportedError := fun j => do
  let r ← Json.record? ["extensions", "message"] j
  return {
    extensions := ← r.withDefault "extensions" (Json.nullable? Extensions.ofJson?) none
    message := ← r.withDefault "message" Json.string? "" }

end ReportedError

namespace FailedResponse

def toJson (r : FailedResponse) : Json :=
  .object [("errorMessage", Json.ofOption .string r.errorMessage),
    ("errors", .array (r.errors.map ReportedError.toJson)), ("message", .string r.message),
    ("missing", Json.ofOption (fun ms => .array (ms.map .object)) r.missing),
    ("status", .int r.status)]

def ofJson? : Decoder FailedResponse := fun j => do
  let r ← Json.record? ["errorMessage", "errors", "message", "missing", "status"] j
  return {
    errorMessage := ← r.withDefault "errorMessage" (Json.nullable? Json.string?) none
    errors := ← r.withDefault "errors" (Json.list? ReportedError.ofJson?) []
    message := ← r.withDefault "message" Json.string? ""
    missing := ← r.withDefault "missing" (Json.nullable? (Json.list? Json.members?)) none
    status := ← r.withDefault "status" (Json.bits? 16) 0 }

def ofJsonText? (s : String) : Option FailedResponse := (Json.parseLenient? s).bind ofJson?

end FailedResponse

def Failure.ofText (s : String) : Failure :=
  match FailedResponse.ofJsonText? s with
  | some r => r.classify
  | none => Failure.make .unknown s

end SchemaGraph
