import SchemaGraph.Json.Basic
import SchemaGraph.Keyed

/-! What a caller asks for. -/

namespace SchemaGraph

inductive OperationKind where
  | get
  | list
  | search
  deriving DecidableEq

namespace OperationKind

def operationName : OperationKind → String → String
  | .get, typeName => "get" ++ typeName ++ "ById"
  | .list, typeName => "list" ++ typeName
  | .search, typeName => "search" ++ typeName

def filterTypeName : OperationKind → String → String
  | .search, typeName => "_Search" ++ typeName ++ "Filter"
  | _, typeName => "_List" ++ typeName ++ "Filter"

end OperationKind

inductive SortDirection where
  | ascending
  | descending
  deriving DecidableEq

def SortDirection.keyword : SortDirection → String
  | .ascending => "ASC"
  | .descending => "DESC"

structure SortOrder where
  direction : SortDirection
  fieldName : String

def defaultNestedLimit : Nat := 2

structure ListParams where
  cursor : Option String
  /-- The value of a variable; it never shows in the text. -/
  filter : Option Json
  limit : Nat
  limitFields : Option (List String)
  nestedLimit : Nat
  sort : Option SortOrder
  typeName : String

structure GetParams where
  externalId : String
  limitFields : Option (List String)
  nestedCursors : Keyed String
  nestedFilters : Keyed Json
  nestedLimit : Nat
  space : String
  typeName : String

structure SearchParams where
  filter : Option Json
  limit : Option Nat
  limitFields : Option (List String)
  nestedLimit : Nat
  searchTerm : String
  typeName : String

inductive QueryError where
  | inlineTypeWithRelationList (fieldName typeName : String)
  | invalidNestedArgument (fieldName typeName : String)
  | noTypesRequested
  | unknownType (typeName : String)
  deriving DecidableEq

def QueryError.message : QueryError → String
  | .inlineTypeWithRelationList fieldName typeName =>
    "Inline type `" ++ typeName ++ "` declares the list-valued relation field `" ++ fieldName ++
      "` and cannot be selected inline."
  | .invalidNestedArgument fieldName typeName =>
    "A nested cursor or filter was given for `" ++ typeName ++ "." ++ fieldName ++
      "`, which is not a list-valued relation field."
  | .noTypesRequested => "At least one type name is required to build an aggregate query."
  | .unknownType typeName => "No type named `" ++ typeName ++ "` exists in this schema."

def QueryError.kind : QueryError → String
  | .inlineTypeWithRelationList .. => "InlineTypeWithRelationList"
  | .invalidNestedArgument .. => "InvalidNestedArgument"
  | .noTypesRequested => "NoTypesRequested"
  | .unknownType .. => "UnknownType"

end SchemaGraph
