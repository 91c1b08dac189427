import SchemaGraph.Decimal.Binary64
import SchemaGraph.Sorted

/-! JSON values. Members of an object are kept in the order in which they are written, repeated
names included; `canonical` is the view in which order and repetition no longer matter. -/

namespace SchemaGraph

inductive Json where
  | null
  | bool (b : Bool)
  | int (n : Int)
  | float (x : Binary64)
  | string (s : String)
  | array (items : List Json)
  | object (members : List (String × Json))
  /-- Well-formed text without a value: half a surrogate pair, a number out of range, or
  brackets nested too deep. -/
  | unreadable

namespace Json

instance : Inhabited Json := ⟨.null⟩

mutual

def canonical : Json → Option Json
  | .array items => (canonicalItems items).map .array
  | .object members => (canonicalMembers members).map fun ms => .object (Sorted.ofList ms)
  | .unreadable => none
  | j => some j

def canonicalItems : List Json → Option (List Json)
  | [] => some []
  | j :: js =>
    match canonical j, canonicalItems js with
    | some j, some js => some (j :: js)
    | _, _ => none

def canonicalMembers : List (String × Json) → Option (List (String × Json))
  | [] => some []
  | (name, j) :: ms =>
    match canonical j, canonicalMembers ms with
    | some j, some ms => some ((name, j) :: ms)
    | _, _ => none

end

def member? (name : String) : Json → Option Json
  | .object members => members.reverse.lookup name
  | _ => none

end Json

end SchemaGraph
