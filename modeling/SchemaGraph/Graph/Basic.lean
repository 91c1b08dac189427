import SchemaGraph.Builtin
import SchemaGraph.Keyed
import SchemaGraph.TypeKind

/-! Graphs of types. Types and fields are kept under their names in the order of their
declaration, and refer to one another by name only, so that a graph may be cyclic. -/

namespace SchemaGraph

/-- The type of a field: a name, at most one list around it, and an exclamation mark that
belongs to the outermost of the two. -/
structure FieldType where
  /-- Whether the name was no built-in scalar when the type was made. -/
  isCustom : Bool
  isList : Bool
  isNonNull : Bool
  name : String
  deriving DecidableEq

namespace FieldType

def make (name : String) (isList isNonNull : Bool) : FieldType :=
  ⟨!Builtin.isScalar name, isList, isNonNull, name⟩

def withName (t : FieldType) (name : String) : FieldType :=
  { t with name := name, isCustom := !Builtin.isScalar name }

end FieldType

/-- A directive put on a type or a field. The arguments are literals of the schema language. -/
structure Annotation where
  arguments : Keyed String
  name : String
  deriving DecidableEq

def Annotation.named (name : String) (arguments : Keyed String) : Annotation :=
  ⟨arguments, String.ofList (name.toList.dropWhile (· = '@'))⟩

structure FieldArgument where
  default : Option String
  name : String
  type : String
  deriving DecidableEq

structure Field where
  arguments : List FieldArgument
  description : Option String
  directives : List Annotation
  type : FieldType
  name : String
  deriving DecidableEq

namespace Field

def make (name : String) (type : FieldType) : Field := ⟨[], none, [], type, name⟩

def isRelation (f : Field) : Bool :=
  f.type.isCustom && !Builtin.isResourceReference f.type.name

end Field

structure TypeDef where
  description : Option String
  directives : List Annotation
  fields : Keyed Field
  kind : TypeKind
  name : String
  version : Option String
  deriving DecidableEq

namespace TypeDef

def make (name : String) (kind : TypeKind) : TypeDef := ⟨none, [], ∅, kind, name, none⟩

def withDescription (t : TypeDef) (description : String) : TypeDef :=
  { t with description := some description }

def withDirective (t : TypeDef) (d : Annotation) : TypeDef :=
  { t with directives := t.directives ++ [d] }

def withField (t : TypeDef) (f : Field) : TypeDef :=
  { t with fields := t.fields.insert f.name f }

def hasDirective (t : TypeDef) (name : String) : Bool :=
  t.directives.any fun d => d.name = name

/-- The directive of types whose values are embedded in the value they belong to. -/
def inlineDirective : String := "inline"

def isInline (t : TypeDef) : Bool := t.hasDirective inlineDirective

def field? (t : TypeDef) (name : String) : Option Field := t.fields.get? name

end TypeDef

structure Graph where
  types : Keyed TypeDef
  deriving DecidableEq

namespace Graph

def empty : Graph := ⟨∅⟩

instance : EmptyCollection Graph := ⟨empty⟩

def type? (g : Graph) (name : String) : Option TypeDef := g.types.get? name

def field? (g : Graph) (typeName fieldName : String) : Option Field :=
  (g.type? typeName).bind fun t => t.field? fieldName

def hasType (g : Graph) (name : String) : Bool := g.types.contains name

def hasField (g : Graph) (typeName fieldName : String) : Bool :=
  (g.field? typeName fieldName).isSome

def typeNames (g : Graph) : List String := g.types.keys

def size (g : Graph) : Nat := g.types.size

def resolves (g : Graph) (name : String) : Bool := Builtin.isFieldType name || g.hasType name

end Graph

end SchemaGraph
