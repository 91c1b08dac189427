import SchemaGraph.Sdl.Document

/-! The grammar of documents that can be executed: operations and fragments, made of the tokens,
values, types and directives of the schema language. Brackets may nest as deep as a document has
tokens, so that no document is too deep. -/

namespace SchemaGraph.Executable

open Sdl Reader

inductive OperationType where
  | query
  | mutation
  | subscription
  deriving DecidableEq

/-- What is selected of a value: a field, perhaps under another name than its own, all that a
fragment selects, or what stands in place, perhaps for values of one type only. -/
inductive Node where
  | field (alias? : Option String) (name : String) (arguments : List (String × Value))
      (directives : List Directive) (children : List Node)
  | spread (fragment : String) (directives : List Directive)
  | inline (onType : Option String) (directives : List Directive) (children : List Node)

structure VariableDeclaration where
  name : String
  type : TypeRef
  default : Option Value
  directives : List Directive

inductive Definition where
  | operation (kind : OperationType) (name : Option String)
      (declared : List VariableDeclaration) (directives : List Directive) (selected : List Node)
  | fragment (name onType : String) (directives : List Directive) (selected : List Node)

def atSpread (t : Option Token) : Bool := t = some .spread

def startsNode (t : Option Token) : Bool := startsWithName t || atSpread t

def argument (room : Nat) : Reader (String × Value) := do
  let n ← name
  punct ':'
  let v ← value false room
  pure (n, v)

def arguments (room : Nat) : Reader (List (String × Value)) := do
  let as ← maybe (atPunct '(')
    (enclosed '(' ')' (fun room => many1 startsWithName (argument room)) room)
  pure (as.getD [])

def field (children : Reader (List Node)) (room : Nat) : Reader Node := do
  let first ← name
  let second ← maybe (atPunct ':') (do punct ':'; name)
  let as ← arguments room
  let ds ← directives room
  let ns ← maybe (atPunct '\x7b') children
  match second with
  | some n => pure (.field (some first) n as ds (ns.getD []))
  | none => pure (.field none first as ds (ns.getD []))

def fragmentNode (children : Reader (List Node)) (room : Nat) : Reader Node := do
  exactly .spread
  let t ← next
  if startsWithName t && !atWord "on" t then
    let n ← name
    let ds ← directives room
    pure (.spread n ds)
  else
    let onType ← maybe (atWord "on") (do word "on"; name)
    let ds ← directives room
    let ns ← children
    pure (.inline onType ds ns)

def node (children : Reader (List Node)) (room : Nat) : Reader Node := do
  if atSpread (← next) then fragmentNode children room else field children room

theorem node_name (children : Reader (List Node)) (room : Nat) (s : String) (ts : List Token) :
    node children room (.name s :: ts) = field children room (.name s :: ts) := rfl

def selections : Nat → Reader (List Node)
  | 0 => stop
  | room + 1 => do
    punct '\x7b'
    let ns ← many1 startsNode (node (selections room) room)
    punct '\x7d'
    pure ns

theorem selections_eq (room : Nat) : selections room =
    enclosed '\x7b' '\x7d' (fun room => many1 startsNode (node (selections room) room)) room := by
  cases room <;> rfl

def variableDeclaration (room : Nat) : Reader VariableDeclaration := do
  punct '$'
  let n ← name
  punct ':'
  let t ← typeRef room
  let v ← maybe (atPunct '=') (do punct '='; value true room)
  let ds ← directives room
  pure ⟨n, t, v, ds⟩

def declarations (room : Nat) : Reader (List VariableDeclaration) := do
  let vs ← maybe (atPunct '(')
    (enclosed '(' ')' (fun room => many1 (atPunct '$') (variableDeclaration room)) room)
  pure (vs.getD [])

def operation (room : Nat) (kind : OperationType) : Reader Definition := do
  let n ← maybe startsWithName name
  let vs ← declarations room
  let ds ← directives room
  let ns ← selections room
  pure (.operation kind n vs ds ns)

def fragmentName : Reader String
  | .name s :: ts => if s = "on" then .error (.name s :: ts) else .ok (s, ts)
  | ts => .error ts

def fragment (room : Nat) : Reader Definition := do
  let n ← fragmentName
  word "on"
  let onType ← name
  let ds ← directives room
  let ns ← selections room
  pure (.fragment n onType ds ns)

def definition (room : Nat) : Reader Definition := do
  let start ← rest
  if atPunct '\x7b' (← next) then
    Definition.operation .query none [] [] <$> selections room
  else
    match ← name with
    | "query" => operation room .query
    | "mutation" => operation room .mutation
    | "subscription" => operation room .subscription
    | "fragment" => fragment room
    | _ => throw start

def document (ts : List Token) : Except (List Token) (List Definition) :=
  match many1 Option.isSome (definition ts.length) ts with
  | .error left => .error left
  | .ok (ds, _) => .ok ds

def ofText (s : String) : Except (List Token) (List Definition) := document (tokens s.toList)

end SchemaGraph.Executable
