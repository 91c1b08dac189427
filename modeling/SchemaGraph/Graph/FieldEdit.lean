import SchemaGraph.Graph.Name

/-! Edits of fields. -/

namespace SchemaGraph

structure FieldProps where
  arguments : List FieldArgument
  description : Option String
  directives : List Annotation
  isList : Bool
  isNonNull : Bool
  typeName : String

/-- What changes about a field; `none` leaves a property as it is. -/
structure FieldUpdates where
  arguments : Option (List FieldArgument)
  description : Option String
  directives : Option (List Annotation)
  isList : Option Bool
  isNonNull : Option Bool
  name : Option String
  typeName : Option String

namespace FieldProps

def toField (p : FieldProps) (name : String) : Field :=
  ⟨p.arguments, p.description, p.directives, .make p.typeName p.isList p.isNonNull, name⟩

def toUpdates (p : FieldProps) : FieldUpdates :=
  { arguments := some p.arguments
    description := p.description
    directives := some p.directives
    isList := some p.isList
    isNonNull := some p.isNonNull
    name := none
    typeName := some p.typeName }

end FieldProps

def FieldType.updated (t : FieldType) (u : FieldUpdates) : FieldType :=
  let t := match u.typeName with
    | some name => t.withName name
    | none => t
  { t with isList := u.isList.getD t.isList, isNonNull := u.isNonNull.getD t.isNonNull }

def Field.updated (f : Field) (u : FieldUpdates) : Field :=
  { f with
    arguments := u.arguments.getD f.arguments
    description := u.description.orElse fun _ => f.description
    directives := u.directives.getD f.directives
    type := f.type.updated u }

namespace TypeDef

def requireField (t : TypeDef) (typeName fieldName : String) : Except SchemaError Field :=
  match t.field? fieldName with
  | some f => .ok f
  | none => .error (.unknownField fieldName typeName)

def placeField (t : TypeDef) (typeName fieldName : String) (newName : Option String)
    (f : Field) : Except SchemaError (Keyed Field) :=
  match newName with
  | none => .ok (t.fields.insert fieldName f)
  | some new =>
    if new = fieldName then .ok (t.fields.insert fieldName f)
    else do
      Graph.checkFieldName typeName new
      if t.fields.contains new then .error (.duplicateFieldName new typeName)
      else .ok (t.fields.replace fieldName new { f with name := new })

end TypeDef

namespace Graph

def setFields (g : Graph) (typeName : String) (fields : Keyed Field) : Graph :=
  ⟨g.types.modify typeName fun t => { t with fields := fields }⟩

def updateField (g : Graph) (typeName fieldName : String) (u : FieldUpdates) :
    Except SchemaError Graph := do
  let t ← g.require typeName
  let f ← t.requireField typeName fieldName
  match u.typeName with
  | some referencedType => g.checkFieldType typeName fieldName referencedType
  | none => pure ()
  let fields ← t.placeField typeName fieldName u.name (f.updated u)
  validated (g.setFields typeName fields)

def addField (g : Graph) (typeName fieldName : String) (p : FieldProps) :
    Except SchemaError Graph := do
  let t ← g.require typeName
  if t.fields.contains fieldName then g.updateField typeName fieldName p.toUpdates
  else
    checkFieldName typeName fieldName
    g.checkFieldType typeName fieldName p.typeName
    validated (g.setFields typeName (t.fields.insert fieldName (p.toField fieldName)))

def removeField (g : Graph) (typeName fieldName : String) : Except SchemaError Graph := do
  let t ← g.require typeName
  let _ ← t.requireField typeName fieldName
  validated (g.setFields typeName (t.fields.erase fieldName))

end Graph

end SchemaGraph
