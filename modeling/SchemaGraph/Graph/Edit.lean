import SchemaGraph.Graph.FieldEdit
import SchemaGraph.Graph.TypeEdit

/-! All edits of a graph as data, and the graphs that edits lead to. -/

namespace SchemaGraph

inductive Edit where
  | addType (name : String) (kind : TypeKind) (directive : Option String)
  | renameType (old new : String)
  | removeType (name : String)
  | updateType (typeName : String) (updates : TypeUpdates)
  | setType (name : String) (definition : TypeDef)
  | addField (typeName fieldName : String) (props : FieldProps)
  | updateField (typeName fieldName : String) (updates : FieldUpdates)
  | removeField (typeName fieldName : String)

namespace Graph

def apply (g : Graph) : Edit → Except SchemaError Graph
  | .addType name kind directive => g.addType name kind directive
  | .renameType old new => g.renameType old new
  | .removeType name => g.removeType name
  | .updateType typeName updates => g.updateType typeName updates
  | .setType name definition => g.setType name definition
  | .addField typeName fieldName props => g.addField typeName fieldName props
  | .updateField typeName fieldName updates => g.updateField typeName fieldName updates
  | .removeField typeName fieldName => g.removeField typeName fieldName

def applyAll (g : Graph) : List Edit → Except SchemaError Graph
  | [] => .ok g
  | e :: es =>
    match g.apply e with
    | .ok g' => g'.applyAll es
    | .error err => .error err

end Graph

end SchemaGraph
