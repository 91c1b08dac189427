/-! The scalars and directives that every data model understands without declaring them. -/

namespace SchemaGraph

inductive BuiltinKind where
  | scalar
  | fieldDirective
  | typeDirective
  deriving DecidableEq

def BuiltinKind.name : BuiltinKind → String
  | .scalar => "Scalar"
  | .fieldDirective => "FieldDirective"
  | .typeDirective => "TypeDirective"

structure Builtin where
  name : String
  kind : BuiltinKind
  wireType : String
  typeHint : String
  body : Option String
  deriving DecidableEq

namespace Builtin

def isDirective (b : Builtin) : Bool := b.kind ≠ .scalar

def declaration (b : Builtin) : String := b.body.getD ("scalar " ++ b.name)

def scalar (name wireType typeHint : String) : Builtin :=
  ⟨name, .scalar, wireType, typeHint, none⟩

def directive (name : String) (kind : BuiltinKind) (body : String) : Builtin :=
  ⟨name, kind, "directive", "", some body⟩

def all : List Builtin :=
  [ scalar "String" "text" "string",
    scalar "Int" "int32" "number",
    scalar "Int64" "int64" "number",
    scalar "Float" "float64" "number",
    scalar "Float32" "float32" "number",
    scalar "Float64" "float64" "number",
    scalar "Timestamp" "timestamp" "string",
    scalar "JSONObject" "json" "object",
    scalar "Date" "date" "string",
    scalar "Boolean" "boolean" "boolean",
    scalar "TimeSeries" "timeseries" "string",
    directive "view" .fieldDirective
      ("directive @view(space: String, version: String) " ++
        "on OBJECT | INTERFACE | FIELD_DEFINITION"),
    directive "mapping" .fieldDirective
      ("directive @mapping(space: String, container: String, " ++
        "property: String) on FIELD_DEFINITION"),
    directive "relation" .fieldDirective
      ("directive @relation(type: JSONObject, name: String, " ++
        "direction: String) on FIELD_DEFINITION"),
    directive "container" .typeDirective
      ("directive @container(constraints: [JSONObject], " ++
        "indexes: [JSONObject]) on OBJECT | INTERFACE") ]

def find? (name : String) : Option Builtin := all.find? fun b => b.name = name

def scalars : List Builtin := all.filter fun b => !b.isDirective

def directives : List Builtin := all.filter isDirective

def preamble : String := "\n".intercalate (all.map declaration)

/-- Directives are not types. -/
def isScalar (name : String) : Bool := (find? name).any fun b => !b.isDirective

def resourceReferences : List String := ["TimeSeries", "File", "Sequence"]

def isResourceReference (name : String) : Bool := resourceReferences.contains name

def isFieldType (name : String) : Bool := isScalar name || isResourceReference name

end Builtin

end SchemaGraph
