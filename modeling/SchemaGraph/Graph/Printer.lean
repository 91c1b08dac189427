import SchemaGraph.Graph.Basic
import SchemaGraph.Text.Quoted

/-! Graphs as text of the schema language: types in the order of declaration, with an empty line
between them, and a field a line. -/

namespace SchemaGraph

def FieldType.render (t : FieldType) : String :=
  (if t.isList then "[" ++ t.name ++ "]" else t.name) ++ (if t.isNonNull then "!" else "")

def FieldArgument.render (a : FieldArgument) : String :=
  a.name ++ ": " ++ a.type ++
    match a.default with
    | some default => " = " ++ default
    | none => ""

def renderArguments : List String → String
  | [] => ""
  | args => "(" ++ ", ".intercalate args ++ ")"

def Annotation.render (d : Annotation) : String :=
  "@" ++ d.name ++ renderArguments (d.arguments.entries.map fun e => e.1 ++ ": " ++ e.2)

def renderAnnotations (ds : List Annotation) : String :=
  String.join (ds.map fun d => " " ++ d.render)

def Field.render (f : Field) : String :=
  f.name ++ renderArguments (f.arguments.map FieldArgument.render) ++ ": " ++ f.type.render ++
    renderAnnotations f.directives

def renderDescription (indent : String) : Option String → String
  | some d => indent ++ Text.quote d ++ "\n"
  | none => ""

def Field.renderLines (f : Field) : String :=
  renderDescription "  " f.description ++ "  " ++ f.render ++ "\n"

def renderFields : List Field → String
  | [] => "\n"
  | fs => " \x7b\n" ++ String.join (fs.map Field.renderLines) ++ "\x7d\n"

def TypeDef.render (t : TypeDef) : String :=
  renderDescription "" t.description ++ t.kind.keyword ++ " " ++ t.name ++
    renderAnnotations t.directives ++ renderFields t.fields.values

def Graph.render (g : Graph) : String := "\n".intercalate (g.types.values.map TypeDef.render)

end SchemaGraph
