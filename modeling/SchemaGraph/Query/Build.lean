import SchemaGraph.Query.Items

/-! Query documents for the operations on a graph, with the values of their variables. -/

namespace SchemaGraph

structure Query where
  operation : Operation
  values : Keyed Json

namespace Query

def operationName (q : Query) : String := q.operation.name

def text (q : Query) : String := q.operation.render

def valuesJson (q : Query) : Json := .object q.values.entries

end Query

namespace Graph

def target (g : Graph) (typeName : String) : Except QueryError TypeDef :=
  match g.type? typeName with
  | some t => .ok t
  | none => .error (.unknownType typeName)

def filterVariable (kind : OperationKind) (t : TypeDef) : String × Sdl.TypeRef :=
  ("filter", .named (kind.filterTypeName t.name) false)

def given (name : String) (j : Option Json) : List (String × Json) :=
  j.toList.map fun j => (name, j)

def plainOptions (limitFields : Option (List String)) (nestedLimit : Nat) : ItemOptions :=
  ⟨limitFields, ∅, ∅, nestedLimit, false⟩

def sortValue (s : SortOrder) : Sdl.Value := .object [(s.fieldName, .enum s.direction.keyword)]

def listQuery (g : Graph) (p : ListParams) : Except QueryError Query := do
  let t ← g.target p.typeName
  let items ← itemSelections g (plainOptions p.limitFields p.nestedLimit) t
  let name := OperationKind.list.operationName t.name
  let arguments : List (String × Sdl.Value) :=
    [("filter", .variable "filter"), ("first", .int p.limit)] ++
      (p.cursor.toList.map fun c => ("after", .text c)) ++
      (p.sort.toList.map fun s => ("sort", sortValue s))
  pure
    { operation :=
        ⟨name, [filterVariable .list t],
          [.field name arguments [.node "items" items, pageInfo]]⟩
      values := .ofList (given "filter" p.filter) }

def checkNested (t : TypeDef) (fieldName : String) : Except QueryError Unit :=
  match t.field? fieldName with
  | some f =>
    if f.isRelation && f.type.isList then .ok ()
    else .error (.invalidNestedArgument fieldName t.name)
  | none => .error (.invalidNestedArgument fieldName t.name)

def getQuery (g : Graph) (p : GetParams) : Except QueryError Query := do
  let t ← g.target p.typeName
  (p.nestedCursors.keys ++ p.nestedFilters.keys).forM (checkNested t)
  let options : ItemOptions :=
    ⟨p.limitFields, p.nestedCursors, p.nestedFilters, p.nestedLimit, true⟩
  let items ← itemSelections g options t
  let name := OperationKind.get.operationName t.name
  let filtered := (selectedFields options t).filterMap fun f =>
    (p.nestedFilters.get? f.name).map fun j => (f, j)
  let id : Sdl.Value := .object [("space", .text p.space), ("externalId", .text p.externalId)]
  pure
    { operation :=
        ⟨name,
          filtered.map fun e =>
            (e.1.name, .named (OperationKind.list.filterTypeName e.1.type.name) false),
          [.field name [("instance", id)] [.node "items" items]]⟩
      values := .ofList (filtered.map fun e => (e.1.name, e.2)) }

def searchQuery (g : Graph) (p : SearchParams) : Except QueryError Query := do
  let t ← g.target p.typeName
  let items ← itemSelections g (plainOptions p.limitFields p.nestedLimit) t
  let name := OperationKind.search.operationName t.name
  pure
    { operation :=
        ⟨name,
          [("first", .named "Int" false), ("query", .named "String" true),
            filterVariable .search t],
          [.field name
            [("first", .variable "first"), ("query", .variable "query"),
              ("filter", .variable "filter")]
            [.node "items" items]]⟩
      values := .ofList
        (given "first" (p.limit.map fun n => .int n) ++ [("query", .string p.searchTerm)] ++
          given "filter" p.filter) }

def aggregateName (t : TypeDef) : String := "aggregate" ++ t.name

def countSelection : List Selection :=
  [.node "items" [.node "count" [.leaf "externalId"]]]

def aggregateQuery (g : Graph) (typeName : String) : Except QueryError Query := do
  let t ← g.target typeName
  pure
    { operation :=
        ⟨aggregateName t, [filterVariable .search t],
          [.field (aggregateName t) [("filter", .variable "filter")] countSelection]⟩
      values := ∅ }

def rowCountQuery (g : Graph) (typeNames : List String) : Except QueryError Query :=
  if typeNames.isEmpty then .error .noTypesRequested
  else do
    let types ← typeNames.mapM g.target
    pure
      { operation :=
          ⟨"Aggregate", [], types.map fun t => .node (aggregateName t) countSelection⟩
        values := ∅ }

end Graph

end SchemaGraph
