import SchemaGraph.Decimal.Binary64
import SchemaGraph.Sorted
import SchemaGraph.TypeKind

/-! Syntax trees of the schema language, as far as they are kept. -/

namespace SchemaGraph.Sdl

inductive Value where
  | variable (name : String)
  | int (n : Int)
  | float (x : Binary64)
  | text (s : String)
  | bool (b : Bool)
  | null
  | enum (name : String)
  | list (items : List Value)
  /-- Entries in the order of their names. -/
  | object (entries : List (String × Value))

instance : Inhabited Value := ⟨.null⟩

inductive TypeRef where
  | named (name : String) (nonNull : Bool)
  | list (item : TypeRef) (nonNull : Bool)
  deriving DecidableEq

structure Directive where
  name : String
  arguments : List (String × Value)

structure Argument where
  description : Option String
  name : String
  type : TypeRef
  default : Option Value
  directives : List Directive

structure FieldDeclaration where
  description : Option String
  name : String
  arguments : List Argument
  type : TypeRef
  directives : List Directive

structure TypeDeclaration where
  description : Option String
  kind : TypeKind
  name : String
  directives : List Directive
  fields : List FieldDeclaration

/-- Of what declares no object or interface type only the kind and the name are kept. -/
inductive Definition where
  | schema
  | type (d : TypeDeclaration)
  | scalar (name : String)
  | union (name : String)
  | enum (name : String)
  | input (name : String)
  | directive (name : String)
  | extension (name : String)

abbrev Document := List Definition

end SchemaGraph.Sdl
