import SchemaGraph.Sdl.Lexeme
import SchemaGraph.Sdl.Reader
import SchemaGraph.Sdl.Syntax

/-! The grammar of schema documents. Brackets of all kinds nest at most fifty deep; `room` says
how many may still be opened. -/

namespace SchemaGraph.Sdl

open Reader

def nestingLimit : Nat := 50

def startsValue (constant : Bool) : Option Token → Bool
  | some (.name _) => true
  | some (.int _) => true
  | some (.float _) => true
  | some (.text _) => true
  | some (.punct c) => c = '[' || c = '\x7b' || (c = '$' && !constant)
  | _ => false

def nameValue (s : String) : Value :=
  if s = "true" then .bool true
  else if s = "false" then .bool false
  else if s = "null" then .null
  else .enum s

/-- A value; a constant one holds no variables at any depth. -/
def value (constant : Bool) : Nat → Reader Value
  | _, .name s :: ts => .ok (nameValue s, ts)
  | _, .int n :: ts => .ok (.int n, ts)
  | _, .float x :: ts => .ok (.float x, ts)
  | _, .text s :: ts => .ok (.text s, ts)
  | 0, .punct c :: ts => bracketless c ts
  | room + 1, .punct c :: ts =>
    if c = '[' then
      (do
        let vs ← many (startsValue constant) (value constant room)
        punct ']'
        pure (.list vs) : Reader Value) ts
    else if c = '\x7b' then
      (do
        let es ← many startsWithName (do
          let n ← name
          punct ':'
          let v ← value constant room
          pure (n, v))
        punct '\x7d'
        pure (.object (Sorted.ofList es)) : Reader Value) ts
    else bracketless c ts
  | _, ts => .error ts
where
  bracketless (c : Char) (ts : List Token) : Except (List Token) (Value × List Token) :=
    if c = '$' ∧ !constant then (Value.variable <$> name : Reader Value) ts
    else .error (.punct c :: ts)

def bang : Reader Bool := do
  if atPunct '!' (← next) then
    punct '!'
    pure true
  else pure false

def typeRef : Nat → Reader TypeRef
  | _, .name s :: ts => (TypeRef.named s <$> bang : Reader TypeRef) ts
  | room + 1, .punct c :: ts =>
    if c = '[' then
      (do
        let item ← typeRef room
        punct ']'
        let nonNull ← bang
        pure (.list item nonNull) : Reader TypeRef) ts
    else .error (.punct c :: ts)
  | _, ts => .error ts

def directive (room : Nat) : Reader Directive := do
  punct '@'
  let n ← name
  let arguments ← maybe (atPunct '(') (enclosed '(' ')' (fun room => many1 startsWithName do
    let n ← name
    punct ':'
    let v ← value false room
    pure (n, v)) room)
  pure ⟨n, arguments.getD []⟩

def directives (room : Nat) : Reader (List Directive) := many (atPunct '@') (directive room)

def startsWithText : Option Token → Bool
  | some (.text _) => true
  | _ => false

def text : Reader String
  | .text s :: ts => .ok (s, ts)
  | ts => .error ts

def description : Reader (Option String) := maybe startsWithText text

def argument (room : Nat) : Reader Argument := do
  let d ← description
  let n ← name
  punct ':'
  let t ← typeRef room
  let v ← maybe (atPunct '=') (do punct '='; value true room)
  let ds ← directives room
  pure ⟨d, n, t, v, ds⟩

def arguments (room : Nat) : Reader (List Argument) := do
  let as ← maybe (atPunct '(') (enclosed '(' ')' (fun room => many1 startsDescribed
    (argument room)) room)
  pure (as.getD [])

def field (room : Nat) : Reader FieldDeclaration := do
  let d ← description
  let n ← name
  let as ← arguments room
  punct ':'
  let t ← typeRef room
  let ds ← directives room
  pure ⟨d, n, as, t, ds⟩

def body {α : Type} (item : Nat → Reader α) (room : Nat) : Reader (Option (List α)) :=
  maybe (atPunct '\x7b')
    (enclosed '\x7b' '\x7d' (fun room => many1 startsDescribed (item room)) room)

def interfaces : Reader (List String) := do
  if atWord "implements" (← next) then
    word "implements"
    let _ ← maybe (atPunct '&') (punct '&')
    separated '&' name
  else pure []

def typeDeclaration (room : Nat) (description : Option String) (kind : TypeKind) :
    Reader (TypeDeclaration × List String) := do
  let n ← name
  let is ← interfaces
  let ds ← directives room
  let fs ← body field room
  pure (⟨description, kind, n, ds, fs.getD []⟩, is)

def validOperations (names : List String) : Bool :=
  names.all (["query", "mutation", "subscription"].contains ·) && decide names.Nodup

def schemaBlock (room : Nat) : Reader Unit := do
  let start ← rest
  word "schema"
  let _ ← directives room
  let names ← enclosed '\x7b' '\x7d' (fun _ => many startsWithName do
    let n ← name
    punct ':'
    let _ ← name
    pure n) room
  if validOperations names then pure () else throw start

/-- What follows the keyword; the answer is the name and whether there is any content. -/
def scalarRest (room : Nat) : Reader (String × Bool) := do
  let n ← name
  let ds ← directives room
  pure (n, !ds.isEmpty)

def unionRest (room : Nat) : Reader (String × Bool) := do
  let n ← name
  let ds ← directives room
  let members ← maybe (atPunct '=') (do
    punct '='
    let _ ← maybe (atPunct '|') (punct '|')
    separated '|' name)
  pure (n, !ds.isEmpty || members.isSome)

def enumValue (room : Nat) : Reader Unit := do
  let _ ← description
  let _ ← name
  let _ ← directives room

def enumRest (room : Nat) : Reader (String × Bool) := do
  let n ← name
  let ds ← directives room
  let values ← body enumValue room
  pure (n, !ds.isEmpty || values.isSome)

def inputRest (room : Nat) : Reader (String × Bool) := do
  let n ← name
  let ds ← directives room
  let fields ← body argument room
  pure (n, !ds.isEmpty || fields.isSome)

def locations : List String :=
  ["QUERY", "MUTATION", "SUBSCRIPTION", "FIELD", "FRAGMENT_DEFINITION", "FRAGMENT_SPREAD",
    "INLINE_FRAGMENT", "SCHEMA", "SCALAR", "OBJECT", "FIELD_DEFINITION", "ARGUMENT_DEFINITION",
    "INTERFACE", "UNION", "ENUM", "ENUM_VALUE", "INPUT_OBJECT", "INPUT_FIELD_DEFINITION",
    "VARIABLE_DEFINITION"]

def location : Reader Unit
  | .name s :: ts => if locations.contains s then .ok ((), ts) else .error (.name s :: ts)
  | ts => .error ts

def directiveRest (room : Nat) : Reader String := do
  punct '@'
  let n ← name
  let _ ← arguments room
  let _ ← maybe (atWord "repeatable") (word "repeatable")
  word "on"
  let _ ← maybe (fun t => atPunct '|' t || startsWithName t) do
    let _ ← maybe (atPunct '|') (punct '|')
    separated '|' location
  pure n

def typeExtension (room : Nat) (kind : TypeKind) : Reader (String × Bool) := do
  let (d, is) ← typeDeclaration room none kind
  let implementing := kind = .object ∧ !is.isEmpty
  pure (d.name, implementing || !d.directives.isEmpty || !d.fields.isEmpty)

/-- An extension without content is a complaint about the keyword after `extend`. -/
def extension (room : Nat) : Reader String := do
  word "extend"
  let start ← rest
  let keyword ← name
  let (n, filled) ←
    match keyword with
    | "scalar" => scalarRest room
    | "type" => typeExtension room .object
    | "interface" => typeExtension room .interface
    | "union" => unionRest room
    | "enum" => enumRest room
    | "input" => inputRest room
    | _ => throw start
  if filled then pure n else throw start

def described (room : Nat) (description : Option String) : Reader Definition := do
  let start ← rest
  let keyword ← name
  match keyword with
  | "type" => (Definition.type ·.1) <$> typeDeclaration room description .object
  | "interface" => (Definition.type ·.1) <$> typeDeclaration room description .interface
  | "scalar" => (Definition.scalar ·.1) <$> scalarRest room
  | "union" => (Definition.union ·.1) <$> unionRest room
  | "enum" => (Definition.enum ·.1) <$> enumRest room
  | "input" => (Definition.input ·.1) <$> inputRest room
  | "directive" => Definition.directive <$> directiveRest room
  | _ => throw start

def definition (room : Nat) : Reader Definition := do
  let t ← next
  if atWord "schema" t then (fun _ => .schema) <$> schemaBlock room
  else if atWord "extend" t then Definition.extension <$> extension room
  else
    let d ← description
    described room d

def document (ts : List Token) : Except (List Token) Document :=
  match many1 Option.isSome (definition nestingLimit) ts with
  | .error e => .error e
  | .ok (ds, _) => .ok ds

def Document.ofText (cs : List Char) : Except Position Document :=
  let ls := lexemes cs
  let ts := ls.1.map Lexeme.token
  match document ts with
  | .ok ds => .ok ds
  | .error left => .error (position (ts.length - left.length) ls)

end SchemaGraph.Sdl
