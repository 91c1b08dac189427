/-! What identifies a view, a container and a version of a model. -/

namespace SchemaGraph

structure ContainerKey where
  externalId : String
  space : String
  deriving DecidableEq

structure ViewKey where
  externalId : String
  space : String
  version : String
  deriving DecidableEq

structure ModelKey where
  externalId : String
  space : String
  version : String
  deriving DecidableEq

namespace ContainerKey

def render (k : ContainerKey) : String := k.space ++ ":" ++ k.externalId

def compare (a b : ContainerKey) : Ordering :=
  (Ord.compare a.externalId b.externalId).then (Ord.compare a.space b.space)

end ContainerKey

namespace ViewKey

/-- All versions of a view keep their data in one container. -/
def container (k : ViewKey) : ContainerKey := ⟨k.externalId, k.space⟩

def render (k : ViewKey) : String := k.space ++ ":" ++ k.externalId ++ "/" ++ k.version

def compare (a b : ViewKey) : Ordering :=
  ((Ord.compare a.externalId b.externalId).then (Ord.compare a.space b.space)).then
    (Ord.compare a.version b.version)

end ViewKey

namespace ModelKey

def render (k : ModelKey) : String := k.space ++ ":" ++ k.externalId ++ "/" ++ k.version

def sameModel (a b : ModelKey) : Bool := a.space = b.space && a.externalId = b.externalId

end ModelKey

end SchemaGraph
