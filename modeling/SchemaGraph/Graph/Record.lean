import SchemaGraph.Graph.Basic
import SchemaGraph.Json.Printer
import SchemaGraph.Json.Reader
import SchemaGraph.Json.Record

/-! Graphs as JSON records. Nothing is checked: a record may hold a graph that breaks every
rule. -/

namespace SchemaGraph

open Json (Decoder)

namespace TypeKind

def recordNames : List (String × TypeKind) := [("Object", .object), ("Interface", .interface)]

def toJson : TypeKind → Json
  | .object => .string "Object"
  | .interface => .string "Interface"

def ofJson? : Decoder TypeKind := Json.choice? recordNames

end TypeKind

namespace FieldType

def toJson (t : FieldType) : Json :=
  .object [("is_custom", .bool t.isCustom), ("is_list", .bool t.isList),
    ("is_non_null", .bool t.isNonNull), ("name", .string t.name)]

def ofJson? : Decoder FieldType := fun j => do
  let r ← Json.record? ["is_custom", "is_list", "is_non_null", "name"] j
  return {
    isCustom := ← r.required "is_custom" Json.bool?
    isList := ← r.required "is_list" Json.bool?
    isNonNull := ← r.required "is_non_null" Json.bool?
    name := ← r.required "name" Json.string? }

end FieldType

namespace Annotation

def toJson (d : Annotation) : Json :=
  .object [("arguments", .object (d.arguments.mapValues Json.string).entries),
    ("name", .string d.name)]

def ofJson? : Decoder Annotation := fun j => do
  let r ← Json.record? ["arguments", "name"] j
  return {
    arguments := ← r.required "arguments" (Json.keyed? Json.string?)
    name := ← r.required "name" Json.string? }

end Annotation

namespace FieldArgument

def toJson (a : FieldArgument) : Json :=
  .object [("default_value", Json.ofOption .string a.default), ("name", .string a.name),
    ("type_annotation", .string a.type)]

def ofJson? : Decoder FieldArgument := fun j => do
  let r ← Json.record? ["default_value", "name", "type_annotation"] j
  return {
    default := ← r.optional "default_value" Json.string?
    name := ← r.required "name" Json.string?
    type := ← r.required "type_annotation" Json.string? }

end FieldArgument

namespace Field

def toJson (f : Field) : Json :=
  .object [("arguments", .array (f.arguments.map FieldArgument.toJson)),
    ("description", Json.ofOption .string f.description),
    ("directives", .array (f.directives.map Annotation.toJson)),
    ("field_type", f.type.toJson), ("name", .string f.name)]

def ofJson? : Decoder Field := fun j => do
  let r ← Json.record? ["arguments", "description", "directives", "field_type", "name"] j
  return {
    arguments := ← r.required "arguments" (Json.list? FieldArgument.ofJson?)
    description := ← r.optional "description" Json.string?
    directives := ← r.required "directives" (Json.list? Annotation.ofJson?)
    type := ← r.required "field_type" FieldType.ofJson?
    name := ← r.required "name" Json.string? }

end Field

namespace TypeDef

def toJson (t : TypeDef) : Json :=
  .object [("description", Json.ofOption .string t.description),
    ("directives", .array (t.directives.map Annotation.toJson)),
    ("fields", .object (t.fields.mapValues Field.toJson).entries),
    ("kind", t.kind.toJson), ("name", .string t.name),
    ("version", Json.ofOption .string t.version)]

def ofJson? : Decoder TypeDef := fun j => do
  let r ← Json.record? ["description", "directives", "fields", "kind", "name", "version"] j
  return {
    description := ← r.optional "description" Json.string?
    directives := ← r.required "directives" (Json.list? Annotation.ofJson?)
    fields := ← r.required "fields" (Json.keyed? Field.ofJson?)
    kind := ← r.required "kind" TypeKind.ofJson?
    name := ← r.required "name" Json.string?
    version := ← r.optional "version" Json.string? }

end TypeDef

namespace Graph

def toJson (g : Graph) : Json :=
  .object [("types", .object (g.types.mapValues TypeDef.toJson).entries)]

def ofJson? : Decoder Graph := fun j => do
  let r ← Json.record? ["types"] j
  return { types := ← r.required "types" (Json.keyed? TypeDef.ofJson?) }

def toJsonText (g : Graph) : String := g.toJson.compact

def ofJsonText? (s : String) : Option Graph := (Json.parseLenient? s).bind ofJson?

end Graph

end SchemaGraph
