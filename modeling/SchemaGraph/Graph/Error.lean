/-! What can be wrong with a schema or an edit of it. -/

namespace SchemaGraph

inductive SchemaError where
  | danglingTypeReference (fieldName referencedType typeName : String)
  | duplicateFieldName (fieldName typeName : String)
  | duplicateTypeName (typeName : String)
  | emptySchema
  | inlineTypeWithRelationList (fieldName typeName : String)
  | invalidFieldName (fieldName typeName : String)
  | invalidTypeName (typeName : String)
  | mismatchedTypeKey (key typeName : String)
  | syntaxError (line column : Nat)
  | reservedTypeName (typeName : String)
  | unknownField (fieldName typeName : String)
  | unknownType (typeName : String)
  | unsupportedNestedList (fieldName typeName : String)
  deriving DecidableEq

def SchemaError.message : SchemaError → String
  | .danglingTypeReference fieldName referencedType typeName =>
    "Field `" ++ typeName ++ "." ++ fieldName ++ "` references `" ++ referencedType ++
      "`, which is neither a built-in type nor defined in this schema."
  | .duplicateFieldName fieldName typeName =>
    "Type `" ++ typeName ++ "` already defines a field named `" ++ fieldName ++ "`."
  | .duplicateTypeName typeName => "A type named `" ++ typeName ++ "` already exists."
  | .emptySchema => "Your Data Model Schema is empty"
  | .inlineTypeWithRelationList fieldName typeName =>
    "Inline type `" ++ typeName ++ "` must not declare the list-valued relation field `" ++
      fieldName ++ "`."
  | .invalidFieldName fieldName typeName =>
    "`" ++ fieldName ++ "` is not a valid field name on type `" ++ typeName ++ "`."
  | .invalidTypeName typeName => "`" ++ typeName ++ "` is not a valid type name."
  | .mismatchedTypeKey key typeName =>
    "Type `" ++ typeName ++ "` is stored under the mismatched key `" ++ key ++ "`."
  | .syntaxError line column =>
    "Failed to parse schema: schema parse error: Parse error at " ++ line.repr ++ ":" ++
      column.repr
  | .reservedTypeName typeName =>
    "`" ++ typeName ++ "` is the name of a built-in type or directive."
  | .unknownField fieldName typeName =>
    "Type `" ++ typeName ++ "` has no field named `" ++ fieldName ++ "`."
  | .unknownType typeName => "No type named `" ++ typeName ++ "` exists in this schema."
  | .unsupportedNestedList fieldName typeName =>
    "Field `" ++ typeName ++ "." ++ fieldName ++
      "` uses a nested list type, which is not supported."

def SchemaError.kind : SchemaError → String
  | .danglingTypeReference .. => "DanglingTypeReference"
  | .duplicateFieldName .. => "DuplicateFieldName"
  | .duplicateTypeName .. => "DuplicateTypeName"
  | .emptySchema => "EmptySchema"
  | .inlineTypeWithRelationList .. => "InlineTypeWithRelationList"
  | .invalidFieldName .. => "InvalidFieldName"
  | .invalidTypeName .. => "InvalidTypeName"
  | .mismatchedTypeKey .. => "MismatchedTypeKey"
  | .syntaxError .. => "ParseError"
  | .reservedTypeName .. => "ReservedTypeName"
  | .unknownField .. => "UnknownField"
  | .unknownType .. => "UnknownType"
  | .unsupportedNestedList .. => "UnsupportedNestedList"

end SchemaGraph
