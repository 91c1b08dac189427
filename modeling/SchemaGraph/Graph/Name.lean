import SchemaGraph.Graph.Validation
import SchemaGraph.Sdl.Token

/-! Names that an edit may give to types and fields. -/

namespace SchemaGraph

def isValidName (s : String) : Bool :=
  Sdl.isName s.toList && !(['_', '_'].isPrefixOf s.toList)

def isReservedName (s : String) : Bool :=
  (Builtin.find? s).isSome || Builtin.isFieldType s

namespace Graph

def checkNewTypeName (g : Graph) (name : String) : Except SchemaError Unit :=
  if !isValidName name then .error (.invalidTypeName name)
  else if isReservedName name then .error (.reservedTypeName name)
  else if g.hasType name then .error (.duplicateTypeName name)
  else .ok ()

def checkFieldName (typeName fieldName : String) : Except SchemaError Unit :=
  if isValidName fieldName then .ok () else .error (.invalidFieldName fieldName typeName)

def checkFieldType (g : Graph) (typeName fieldName referencedType : String) :
    Except SchemaError Unit :=
  if g.resolves referencedType then .ok ()
  else .error (.danglingTypeReference fieldName referencedType typeName)

def require (g : Graph) (typeName : String) : Except SchemaError TypeDef :=
  match g.type? typeName with
  | some t => .ok t
  | none => .error (.unknownType typeName)

theorem checkNewTypeName_eq_ok_iff (g : Graph) (name : String) :
    g.checkNewTypeName name = .ok () ↔
      isValidName name = true ∧ isReservedName name = false ∧ g.hasType name = false := by
  unfold checkNewTypeName
  split
  · simp_all
  · split
    · simp_all
    · split <;> simp_all

theorem checkFieldName_eq_ok_iff (typeName fieldName : String) :
    checkFieldName typeName fieldName = .ok () ↔ isValidName fieldName = true := by
  unfold checkFieldName
  split <;> simp_all

theorem checkFieldType_eq_ok_iff (g : Graph) (typeName fieldName referencedType : String) :
    g.checkFieldType typeName fieldName referencedType = .ok () ↔
      g.resolves referencedType = true := by
  unfold checkFieldType
  split <;> simp_all

theorem require_eq_ok_iff (g : Graph) (typeName : String) (t : TypeDef) :
    g.require typeName = .ok t ↔ g.type? typeName = some t := by
  unfold require
  split <;> simp_all

end Graph

end SchemaGraph
