import SchemaGraph.Graph.Validation
import SchemaGraph.Sdl.Document
import SchemaGraph.Sdl.Literal
import SchemaGraph.Text.Blank

/-! From schema text to a graph. Only object and interface types are taken; a text of nothing
but white space is the empty graph. -/

namespace SchemaGraph

structure ViewVersion where
  externalId : String
  version : String

def Annotation.ofSyntax (d : Sdl.Directive) : Annotation :=
  ⟨Keyed.ofList (d.arguments.map fun e => (e.1, e.2.render)), d.name⟩

def FieldArgument.ofSyntax (a : Sdl.Argument) : FieldArgument :=
  ⟨a.default.map Sdl.Value.render, a.name, a.type.render⟩

/-- A list of lists has no field type; a mark on the items of a list is dropped. -/
def FieldType.ofSyntax? : Sdl.TypeRef → Option FieldType
  | .named name nonNull => some (make name false nonNull)
  | .list (.named name _) nonNull => some (make name true nonNull)
  | .list (.list ..) _ => none

def Field.ofSyntax (typeName : String) (f : Sdl.FieldDeclaration) : Except SchemaError Field :=
  match FieldType.ofSyntax? f.type with
  | some type =>
    .ok ⟨f.arguments.map FieldArgument.ofSyntax, f.description,
      f.directives.map Annotation.ofSyntax, type, f.name⟩
  | none => .error (.unsupportedNestedList f.name typeName)

namespace TypeDef

def addFields (typeName : String) (fields : Keyed Field) :
    List Sdl.FieldDeclaration → Except SchemaError (Keyed Field)
  | [] => .ok fields
  | f :: fs =>
    if fields.contains f.name then .error (.duplicateFieldName f.name typeName)
    else
      match Field.ofSyntax typeName f with
      | .error e => .error e
      | .ok field => addFields typeName (fields.insert f.name field) fs

def ofSyntax (views : List ViewVersion) (d : Sdl.TypeDeclaration) : Except SchemaError TypeDef :=
  match addFields d.name ∅ d.fields with
  | .error e => .error e
  | .ok fields =>
    .ok
      { description := d.description
        directives := d.directives.map Annotation.ofSyntax
        fields := fields
        kind := d.kind
        name := d.name
        version := (views.find? fun v => v.externalId = d.name).map ViewVersion.version }

end TypeDef

namespace Graph

def addDefinitions (views : List ViewVersion) (types : Keyed TypeDef) :
    Sdl.Document → Except SchemaError (Keyed TypeDef)
  | [] => .ok types
  | .type d :: ds =>
    match TypeDef.ofSyntax views d with
    | .error e => .error e
    | .ok t =>
      if types.contains t.name then .error (.duplicateTypeName t.name)
      else addDefinitions views (types.insert t.name t) ds
  | _ :: ds => addDefinitions views types ds

def ofDocument (views : List ViewVersion) (ds : Sdl.Document) : Except SchemaError Graph :=
  (addDefinitions views ∅ ds).map Graph.mk

/-- The graph of a text, whether or not it keeps the rules. -/
def load (views : List ViewVersion) (s : String) : Except SchemaError Graph :=
  if Text.isAllBlank s then .ok ∅
  else
    match Sdl.Document.ofText s.toList with
    | .ok ds => ofDocument views ds
    | .error p => .error (.syntaxError p.line p.column)

def parse (views : List ViewVersion) (s : String) : Except SchemaError Graph :=
  match load views s with
  | .ok g => g.validated
  | .error e => .error e

end Graph

def schemaErrors (s : String) : List SchemaError :=
  if s.isEmpty then [.emptySchema]
  else
    match Graph.load [] s with
    | .ok g => g.violations
    | .error e => [e]

end SchemaGraph
