import SchemaGraph.Json.Record
import SchemaGraph.Model.Version

/-! Keys and versions as JSON records. -/

namespace SchemaGraph

open Json (Decoder)

def Json.keyNames : List String := ["externalId", "space", "version"]

namespace ViewKey

def toJson (k : ViewKey) : Json :=
  .object [("externalId", .string k.externalId), ("space", .string k.space),
    ("version", .string k.version)]

def ofJson? : Decoder ViewKey := fun j => do
  let r ← Json.record? Json.keyNames j
  return {
    externalId := ← r.required "externalId" Json.string?
    space := ← r.required "space" Json.string?
    version := ← r.required "version" Json.string? }

end ViewKey

namespace ModelKey

def toJson (k : ModelKey) : Json :=
  .object [("externalId", .string k.externalId), ("space", .string k.space),
    ("version", .string k.version)]

def ofJson? : Decoder ModelKey := fun j => do
  let r ← Json.record? Json.keyNames j
  return {
    externalId := ← r.required "externalId" Json.string?
    space := ← r.required "space" Json.string?
    version := ← r.required "version" Json.string? }

end ModelKey

namespace ModelVersion

def toJson (m : ModelVersion) : Json :=
  .object [("createdTime", .int m.createdTime), ("externalId", .string m.externalId),
    ("schema", .string m.schema), ("space", .string m.space), ("version", .string m.version),
    ("views", .array (m.views.map ViewKey.toJson))]

def ofJson? : Decoder ModelVersion := fun j => do
  let r ← Json.record? ["createdTime", "externalId", "schema", "space", "version", "views"] j
  return {
    createdTime := ← r.withDefault "createdTime" Json.int64? 0
    externalId := ← r.required "externalId" Json.string?
    schema := ← r.withDefault "schema" Json.string? ""
    space := ← r.required "space" Json.string?
    version := ← r.required "version" Json.string?
    views := ← r.withDefault "views" (Json.list? ViewKey.ofJson?) [] }

end ModelVersion

end SchemaGraph
