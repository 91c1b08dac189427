import SchemaGraph.Graph.Basic
import SchemaGraph.Query.Params
import SchemaGraph.Query.Selection

/-! What is selected of an instance. A relation shows only what identifies the instances it leads
to, so that cycles in the graph do no harm; the values of inline types are shown in place, at
most two of them inside one another. -/

namespace SchemaGraph

def systemFields : List String :=
  ["externalId", "space", "lastUpdatedTime", "createdTime", "__typename"]

def pageInfoFields : List String :=
  ["startCursor", "hasPreviousPage", "hasNextPage", "endCursor"]

def identity : List Selection := Selection.leaves systemFields

def pageInfo : Selection := .node "pageInfo" (Selection.leaves pageInfoFields)

structure ItemOptions where
  limitFields : Option (List String)
  nestedCursors : Keyed String
  nestedFilters : Keyed Json
  nestedLimit : Nat
  nestedPageInfo : Bool

def ItemOptions.admits (o : ItemOptions) (f : Field) : Bool :=
  !systemFields.contains f.name && o.limitFields.all fun names => names.contains f.name

def selectedFields (o : ItemOptions) (t : TypeDef) : List Field :=
  t.fields.values.filter o.admits

def resourceSelection (f : Field) : Selection := .node f.name [.leaf "externalId"]

def Graph.inlineTarget? (g : Graph) (f : Field) : Option TypeDef :=
  (g.type? f.type.name).filter TypeDef.isInline

def inlineField (g : Graph) (expand : Field → TypeDef → Except QueryError (Option Selection))
    (f : Field) : Except QueryError (Option Selection) :=
  if Builtin.isResourceReference f.type.name then .ok (some (resourceSelection f))
  else if !f.type.isCustom then .ok (some (.leaf f.name))
  else
    match g.inlineTarget? f with
    | some t => expand f t
    | none => .ok (some (.node f.name identity))

def inlineWith (g : Graph) (expand : Field → TypeDef → Except QueryError (Option Selection))
    (f : Field) (t : TypeDef) : Except QueryError Selection :=
  match t.fields.values.find? fun f => f.isRelation && f.type.isList with
  | some bad => .error (.inlineTypeWithRelationList bad.name t.name)
  | none => do
    let children ← t.fields.values.mapM (inlineField g expand)
    pure (.node f.name (children.filterMap id))

/-- The values of an inline type, with `levels` more inside them; anything deeper is left out. -/
def inlineSelection (g : Graph) : (levels : Nat) → Field → TypeDef → Except QueryError Selection
  | 0 => inlineWith g fun _ _ => .ok none
  | levels + 1 => inlineWith g fun f t => some <$> inlineSelection g levels f t

def relationList (o : ItemOptions) (f : Field) : Selection :=
  let filter := if o.nestedFilters.contains f.name then [("filter", .variable f.name)] else []
  let cursor :=
    match o.nestedCursors.get? f.name with
    | some c => [("after", Sdl.Value.text c)]
    | none => []
  .field f.name (filter ++ [("first", Sdl.Value.int o.nestedLimit)] ++ cursor)
    (.node "items" identity :: if o.nestedPageInfo then [pageInfo] else [])

def fieldSelection (g : Graph) (o : ItemOptions) (f : Field) : Except QueryError Selection :=
  if Builtin.isResourceReference f.type.name then .ok (resourceSelection f)
  else if !f.type.isCustom then .ok (.leaf f.name)
  else
    match g.inlineTarget? f with
    | some t => inlineSelection g 1 f t
    | none =>
      if f.type.isList then .ok (relationList o f) else .ok (.node f.name identity)

def itemSelections (g : Graph) (o : ItemOptions) (t : TypeDef) :
    Except QueryError (List Selection) := do
  let fields ← (selectedFields o t).mapM (fieldSelection g o)
  pure (identity ++ fields)

end SchemaGraph
