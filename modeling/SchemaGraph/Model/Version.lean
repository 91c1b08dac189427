import SchemaGraph.Failure.Classify
import SchemaGraph.Model.Key

/-! Versions of data models, and which of them are shown. -/

namespace SchemaGraph

structure ModelVersion where
  createdTime : Int
  externalId : String
  schema : String
  space : String
  version : String
  views : List ViewKey
  deriving DecidableEq

namespace ModelVersion

def key (m : ModelVersion) : ModelKey := ⟨m.externalId, m.space, m.version⟩

def isCreationDraft (m : ModelVersion) : Bool := m.version = "1" && m.schema.isEmpty

end ModelVersion

def visibleVersions (ms : List ModelVersion) : List ModelVersion :=
  ms.filter fun m => !m.isCreationDraft

def loadVersions (listVersions : String → String → Except Failure (List ModelVersion))
    (spaceExists : String → Except Failure Bool) (space externalId : String) :
    Except Failure (List ModelVersion) :=
  match listVersions space externalId with
  | .error f => .error f
  | .ok [] => .error (Failure.ofEmptyListing spaceExists space externalId)
  | .ok ms => .ok (visibleVersions ms)

end SchemaGraph
