/-! The two kinds of types a data model is made of. -/

namespace SchemaGraph

inductive TypeKind where
  | object
  | interface
  deriving DecidableEq

def TypeKind.keyword : TypeKind → String
  | .object => "type"
  | .interface => "interface"

end SchemaGraph
