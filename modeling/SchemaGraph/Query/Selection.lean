import SchemaGraph.Sdl.Literal

/-! Selections of fields, and the query documents made of them. -/

namespace SchemaGraph

inductive Selection where
  | field (name : String) (arguments : List (String × Sdl.Value)) (children : List Selection)

namespace Selection

def name : Selection → String
  | .field name _ _ => name

def arguments : Selection → List (String × Sdl.Value)
  | .field _ arguments _ => arguments

def children : Selection → List Selection
  | .field _ _ children => children

def leaf (name : String) : Selection := .field name [] []

def leaves (names : List String) : List Selection := names.map leaf

def node (name : String) (children : List Selection) : Selection := .field name [] children

def indent (depth : Nat) : String := String.ofList (List.replicate (2 * depth) ' ')

def renderArguments : List (String × Sdl.Value) → String
  | [] => ""
  | as => "(" ++ ", ".intercalate (as.map fun a => a.1 ++ ": " ++ a.2.render) ++ ")"

mutual

def render (depth : Nat) : Selection → String
  | .field name as [] => indent depth ++ name ++ renderArguments as ++ "\n"
  | .field name as (c :: cs) =>
    indent depth ++ name ++ renderArguments as ++ " \x7b\n" ++
      (render (depth + 1) c ++ renderAll (depth + 1) cs) ++ indent depth ++ "\x7d\n"

def renderAll (depth : Nat) : List Selection → String
  | [] => ""
  | c :: cs => render depth c ++ renderAll depth cs

end

theorem renderAll_eq_join (depth : Nat) (ss : List Selection) :
    renderAll depth ss = String.join (ss.map (render depth)) := by
  induction ss with
  | nil => rw [renderAll, List.map_nil, String.join_nil]
  | cons s ss ih => rw [renderAll, ih, List.map_cons, String.join_cons]

end Selection

structure Operation where
  name : String
  declared : List (String × Sdl.TypeRef)
  roots : List Selection

namespace Operation

def renderVariables : List (String × Sdl.TypeRef) → String
  | [] => ""
  | vs => "(" ++ ", ".intercalate (vs.map fun v => "$" ++ v.1 ++ ": " ++ v.2.render) ++ ")"

def render (o : Operation) : String :=
  "query " ++ o.name ++ renderVariables o.declared ++ " \x7b\n" ++
    Selection.renderAll 1 o.roots ++ "\x7d\n"

end Operation

end SchemaGraph
