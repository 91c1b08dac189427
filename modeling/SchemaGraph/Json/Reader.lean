import SchemaGraph.Json.Number
import SchemaGraph.Json.Text

/-! Reading JSON. A strict reader takes a text as a value and reports the first fault. A lenient
reader, used where members may be ignored, faults on bad syntax only: a part that is well-formed
but has no value is read as `unreadable`. -/

namespace SchemaGraph.Json

def isSpace (c : Char) : Bool := c = ' ' || c = '\n' || c = '\t' || c = '\r'

def skipSpace (cs : List Char) : List Char := cs.dropWhile isSpace

def nestingLimit : Nat := 127

abbrev Reading (α : Type) := List Char → Except Fault (α × List Char)

inductive Turn where
  | done (rest : List Char)
  | item (rest : List Char)

def listTurn (first : Bool) (cs : List Char) : Except Fault Turn :=
  match skipSpace cs with
  | [] => .error ⟨.endInList, 0, []⟩
  | c :: r =>
    if c = ']' then .ok (.done r)
    else if first then .ok (.item (c :: r))
    else if c = ',' then
      match skipSpace r with
      | [] => .error ⟨.endInValue, 0, []⟩
      | d :: t => if d = ']' then .error ⟨.trailingComma, 1, d :: t⟩ else .ok (.item (d :: t))
    else .error ⟨.expectedListEnd, 1, c :: r⟩

def objectTurn (first : Bool) (cs : List Char) : Except Fault Turn :=
  match skipSpace cs with
  | [] => .error ⟨.endInObject, 0, []⟩
  | c :: r =>
    if c = '\x7d' then .ok (.done r)
    else if first then
      if c = '"' then .ok (.item (c :: r)) else .error ⟨.expectedKey, 1, c :: r⟩
    else if c = ',' then
      match skipSpace r with
      | [] => .error ⟨.endInValue, 0, []⟩
      | d :: t =>
        if d = '"' then .ok (.item (d :: t))
        else if d = '\x7d' then .error ⟨.trailingComma, 1, d :: t⟩
        else .error ⟨.expectedKey, 1, d :: t⟩
    else .error ⟨.expectedObjectEnd, 1, c :: r⟩

def items {α : Type} (turn : Bool → List Char → Except Fault Turn) (item : Reading α) :
    (room : Nat) → (first : Bool) → List Char → Except Fault (List α × List Char)
  | 0, _, cs => .error ⟨.endInList, 0, cs⟩
  | room + 1, first, cs =>
    match turn first cs with
    | .error f => .error f
    | .ok (.done rest) => .ok ([], rest)
    | .ok (.item start) =>
      match item start with
      | .error f => .error f
      | .ok (a, rest) => (items turn item room false rest).map fun x => (a :: x.1, x.2)

def wordEnd (value : Json) : List Char → Reading Json
  | [], cs => .ok (value, cs)
  | _ :: _, [] => .error ⟨.endInValue, 0, []⟩
  | w :: ws, c :: cs =>
    if c = w then wordEnd value ws cs else .error ⟨.expectedWord, 1, c :: cs⟩

def text (strict : Bool) (cs : List Char) : Except Fault (Option String × List Char) :=
  (textBody strict cs).map fun x => (x.1.map String.ofList, x.2)

def member (strict : Bool) (value : Reading Json) :
    Reading (Option String × Json) := fun cs =>
  match text strict (cs.drop 1) with
  | .error f => .error f
  | .ok (name, rest) =>
    match skipSpace rest with
    | [] => .error ⟨.endInObject, 0, []⟩
    | c :: r =>
      if c = ':' then (value r).map fun x => ((name, x.1), x.2)
      else .error ⟨.expectedColon, 1, c :: r⟩

def objectOf (ms : List (Option String × Json)) : Json :=
  match ms.mapM fun m => m.1.map fun name => (name, m.2) with
  | some ms => .object ms
  | none => .unreadable

def limited (depth : Nat) (j : Json) : Json := if depth < nestingLimit then j else .unreadable

/-- A value with `depth` brackets open around it. There is room for as many brackets inside one
another, and as many items after one another, as a text of fewer than `room` characters can
hold. -/
def value (strict : Bool) : (room depth : Nat) → Reading Json
  | 0, _, cs => .error ⟨.nestedTooDeep, 1, skipSpace cs⟩
  | room + 1, depth, cs =>
    match skipSpace cs with
    | [] => .error ⟨.endInValue, 0, []⟩
    | c :: r =>
      if c = '"' then
        (text strict r).map fun x => ((x.1.map Json.string).getD .unreadable, x.2)
      else if strict ∧ nestingLimit ≤ depth ∧ (c = '[' ∨ c = '\x7b') then
        .error ⟨.nestedTooDeep, 1, c :: r⟩
      else if c = '[' then
        (items listTurn (value strict room (depth + 1)) (room + 1) true r).map
          fun x => (limited depth (.array x.1), x.2)
      else if c = '\x7b' then
        (items objectTurn (member strict (value strict room (depth + 1))) (room + 1) true r).map
          fun x => (limited depth (objectOf x.1), x.2)
      else if c = 'n' then wordEnd .null ['u', 'l', 'l'] r
      else if c = 't' then wordEnd (.bool true) ['r', 'u', 'e'] r
      else if c = 'f' then wordEnd (.bool false) ['a', 'l', 's', 'e'] r
      else if c = '-' then number strict true r
      else if c.isDigit then number strict false (c :: r)
      else .error ⟨.expectedValue, 1, c :: r⟩

def read (strict : Bool) (source : List Char) : Except Fault Json :=
  match value strict (source.length + 1) 0 source with
  | .error f => .error f
  | .ok (j, rest) =>
    match skipSpace rest with
    | [] => .ok j
    | c :: r => .error ⟨.trailingCharacters, 1, c :: r⟩

def parse (s : String) : Except String Json :=
  match read true s.toList with
  | .error f => .error (f.describe s.toList)
  | .ok j => .ok (j.canonical.getD j)

/-- A text for records, in which parts that are ignored may be unreadable. -/
def parseLenient? (s : String) : Option Json := (read false s.toList).toOption

end SchemaGraph.Json
