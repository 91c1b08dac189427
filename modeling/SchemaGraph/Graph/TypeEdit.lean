import SchemaGraph.Graph.Name

/-! Edits of types. An edit gives a new graph or says why there is none; the old graph stays as
it is. -/

namespace SchemaGraph

structure TypeUpdates where
  description : Option String
  /-- The empty list removes every directive. -/
  directives : Option (List Annotation)
  name : Option String

def mergeOne (d : Annotation) : List Annotation → List Annotation
  | [] => [d]
  | e :: es => if e.name = d.name then d :: es else e :: mergeOne d es

def mergeAnnotations (existing updates : List Annotation) : List Annotation :=
  if updates.isEmpty then [] else updates.foldl (fun es d => mergeOne d es) existing

def TypeDef.renameReferences (t : TypeDef) (old new : String) : TypeDef :=
  { t with fields := t.fields.mapValues fun f =>
      if f.type.name = old then { f with type := f.type.withName new } else f }

def TypeDef.updated (t : TypeDef) (u : TypeUpdates) : TypeDef :=
  { t with
    description := u.description.orElse fun _ => t.description
    directives :=
      match u.directives with
      | some ds => mergeAnnotations t.directives ds
      | none => t.directives }

def TypeDef.dropReferences (t : TypeDef) (name : String) : TypeDef :=
  { t with fields := t.fields.filterValues fun f => f.type.name ≠ name }

def TypeDef.bare (name : String) (kind : TypeKind) (directive : Option String) : TypeDef :=
  { TypeDef.make name kind with
    directives := directive.toList.map fun d => Annotation.named d ∅ }

namespace Graph

def putType (g : Graph) (name : String) (t : TypeDef) : Graph :=
  ⟨g.types.insert name { t with name := name }⟩

def renamedEntry (old new : String) (e : String × TypeDef) : String × TypeDef :=
  let t := if e.1 = old then { e.2 with name := new } else e.2
  (t.name, t.renameReferences old new)

def renamed (g : Graph) (old new : String) : Graph :=
  ⟨Keyed.ofList (g.types.entries.map (renamedEntry old new))⟩

def withoutType (g : Graph) (name : String) : Graph :=
  ⟨(g.types.mapValues fun t => t.dropReferences name).erase name⟩

def withUpdatedType (g : Graph) (typeName : String) (u : TypeUpdates) : Graph :=
  ⟨g.types.modify typeName fun t => t.updated u⟩

/-- Adds a type without fields; other types are not looked at. -/
def addType (g : Graph) (name : String) (kind : TypeKind) (directive : Option String) :
    Except SchemaError Graph := do
  g.checkNewTypeName name
  pure (g.putType name (.bare name kind directive))

def renameType (g : Graph) (old new : String) : Except SchemaError Graph := do
  let _ ← g.require old
  if old = new then pure g
  else
    g.checkNewTypeName new
    validated (g.renamed old new)

def removeType (g : Graph) (name : String) : Except SchemaError Graph := do
  let _ ← g.require name
  validated (g.withoutType name)

def updateType (g : Graph) (typeName : String) (u : TypeUpdates) : Except SchemaError Graph := do
  let _ ← g.require typeName
  let g' := g.withUpdatedType typeName u
  match u.name with
  | some new => if new = typeName then validated g' else g'.renameType typeName new
  | none => validated g'

def setType (g : Graph) (name : String) (t : TypeDef) : Except SchemaError Graph := do
  if g.hasType name then pure () else g.checkNewTypeName name
  t.fields.keys.forM (checkFieldName name)
  validated (g.putType name t)

end Graph

end SchemaGraph
