import SchemaGraph.Decimal.Layout
import SchemaGraph.Sdl.Syntax
import SchemaGraph.Text.Quoted

/-! Values and type references written out again, in one normal form. -/

namespace SchemaGraph.Sdl

mutual

def Value.render : Value → String
  | .variable name => "$" ++ name
  | .int n => n.repr
  | .float x => Decimal.plain x
  | .text s => Text.quote s
  | .bool true => "true"
  | .bool false => "false"
  | .null => "null"
  | .enum name => name
  | .list items => "[" ++ ", ".intercalate (renderItems items) ++ "]"
  | .object entries => "\x7b" ++ ", ".intercalate (renderEntries entries) ++ "\x7d"

def renderItems : List Value → List String
  | [] => []
  | v :: vs => v.render :: renderItems vs

def renderEntries : List (String × Value) → List String
  | [] => []
  | (name, v) :: es => (name ++ ": " ++ v.render) :: renderEntries es

end

def TypeRef.render : TypeRef → String
  | .named name nonNull => if nonNull then name ++ "!" else name
  | .list item nonNull =>
    let inner := "[" ++ item.render ++ "]"
    if nonNull then inner ++ "!" else inner

theorem renderItems_eq_map (vs : List Value) : renderItems vs = vs.map Value.render := by
  induction vs with
  | nil => rw [renderItems, List.map_nil]
  | cons v vs ih => rw [renderItems, List.map_cons, ih]

theorem renderEntries_eq_map (es : List (String × Value)) :
    renderEntries es = es.map fun e => e.1 ++ ": " ++ e.2.render := by
  induction es with
  | nil => rw [renderEntries, List.map_nil]
  | cons e es ih => rw [renderEntries, List.map_cons, ih]

end SchemaGraph.Sdl
