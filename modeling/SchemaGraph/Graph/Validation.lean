import SchemaGraph.Graph.Basic
import SchemaGraph.Graph.Error

/-! The rules every graph has to keep, and the list of all violations in the order of
declaration. -/

namespace SchemaGraph

namespace Graph

def fieldViolations (g : Graph) (t : TypeDef) (key : String) (f : Field) : List SchemaError :=
  (if key ≠ f.name then [.invalidFieldName key t.name] else []) ++
    (if g.resolves f.type.name then []
      else [.danglingTypeReference f.name f.type.name t.name]) ++
    (if t.isInline && f.isRelation && f.type.isList then
      [.inlineTypeWithRelationList f.name t.name] else [])

def typeViolations (g : Graph) (key : String) (t : TypeDef) : List SchemaError :=
  (if key ≠ t.name then [.mismatchedTypeKey key t.name] else []) ++
    t.fields.entries.flatMap fun e => fieldViolations g t e.1 e.2

def violations (g : Graph) : List SchemaError :=
  g.types.entries.flatMap fun e => typeViolations g e.1 e.2

def validated (g : Graph) : Except SchemaError Graph :=
  match g.violations with
  | [] => .ok g
  | e :: _ => .error e

theorem validated_eq_ok_iff (g g' : Graph) :
    g.validated = .ok g' ↔ g.violations = [] ∧ g = g' := by
  unfold validated
  split <;> simp_all

end Graph

end SchemaGraph
