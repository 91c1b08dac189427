import SchemaGraph.Json.Basic
import SchemaGraph.Keyed

/-! Reading records from JSON. A record is an object, whose unknown members are ignored, or the
array of its members in their declared order. A known member may not occur twice. -/

namespace SchemaGraph.Json

abbrev Decoder (α : Type) := Json → Option α

def string? : Decoder String
  | .string s => some s
  | _ => none

def bool? : Decoder Bool
  | .bool b => some b
  | _ => none

def intBetween? (low high : Int) : Decoder Int
  | .int n => if low ≤ n ∧ n ≤ high then some n else none
  | _ => none

def int64? : Decoder Int := intBetween? (-0x8000000000000000) 0x7fffffffffffffff

def natBelow? (bound : Nat) : Decoder Nat
  | .int n => if 0 ≤ n ∧ n < (bound : Int) then some n.toNat else none
  | _ => none

def bits? (n : Nat) : Decoder Nat := natBelow? (Nat.pow 2 n)

def nullable? {α : Type} (d : Decoder α) : Decoder (Option α)
  | .null => some none
  | j => (d j).map some

def list? {α : Type} (d : Decoder α) : Decoder (List α)
  | .array js => js.mapM d
  | _ => none

/-- Members in written order; a repeated name keeps its first place and takes its last value. -/
def keyed? {α : Type} (d : Decoder α) : Decoder (Keyed α)
  | .object ms => (ms.mapM fun m => (d m.2).map fun a => (m.1, a)).map Keyed.ofList
  | _ => none

/-- One of several names, given as a text or as an object with that name and null. -/
def choice? {α : Type} (options : List (String × α)) : Decoder α
  | .string s => options.lookup s
  | .object [(s, .null)] => options.lookup s
  | _ => none

structure Record where
  positional : Bool
  members : List (String × Json)

def record? (names : List String) : Decoder Record
  | .object ms =>
    let known := ms.filter fun m => names.contains m.1
    if (known.map Prod.fst).Nodup then some ⟨false, known⟩ else none
  | .array js => if js.length ≤ names.length then some ⟨true, names.zip js⟩ else none
  | _ => none

namespace Record

variable {α : Type}

def required (r : Record) (name : String) (d : Decoder α) : Option α :=
  (r.members.lookup name).bind d

def optional (r : Record) (name : String) (d : Decoder α) : Option (Option α) :=
  match r.members.lookup name with
  | some j => nullable? d j
  | none => if r.positional then none else some none

/-- A member that may be missing but not null, unless `d` reads null. -/
def withDefault (r : Record) (name : String) (d : Decoder α) (default : α) : Option α :=
  match r.members.lookup name with
  | some j => d j
  | none => some default

end Record

def ofOption (f : α → Json) : Option α → Json
  | some a => f a
  | none => .null

end SchemaGraph.Json
