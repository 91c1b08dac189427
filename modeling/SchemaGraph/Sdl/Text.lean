import SchemaGraph.Text.Basic
import SchemaGraph.Text.Blank

/-! Texts of the schema language: ordinary ones between single quotes marks with escapes, and
blocks between triple ones, whose common indentation is taken away. -/

namespace SchemaGraph.Sdl

def hexDigit? (c : Char) : Option Nat :=
  if c.isDigit then some (c.toNat - '0'.toNat)
  else if 'a' ≤ c ∧ c ≤ 'f' then some (c.toNat - 'a'.toNat + 10)
  else if 'A' ≤ c ∧ c ≤ 'F' then some (c.toNat - 'A'.toNat + 10)
  else none

def hexNumber? (cs : List Char) : Option Nat :=
  match cs with
  | '+' :: ds => digits ds
  | ds => digits ds
where
  digits : List Char → Option Nat
    | [] => none
    | ds => ds.foldl (fun n d => n.bind fun n => (hexDigit? d).map fun v => 16 * n + v) (some 0)

def char? (n : Nat) : Option Char :=
  if h : n.isValidChar then some (Char.ofNatAux n h) else none

def plainEscape? : Char → Option Char
  | '"' => some '"'
  | '\\' => some '\\'
  | '/' => some '/'
  | 'b' => some '\x10'
  | 'f' => some '\x0c'
  | 'n' => some '\n'
  | 'r' => some '\r'
  | 't' => some '\t'
  | _ => none

def textBody : List Char → Option (List Char × List Char)
  | [] => none
  | '"' :: r => some ([], r)
  | '\n' :: _ => none
  | '\\' :: 'u' :: a :: b :: c :: d :: r =>
    match (hexNumber? [a, b, c, d]).bind char?, textBody r with
    | some x, some (cs, rest) => some (x :: cs, rest)
    | _, _ => none
  | '\\' :: c :: r =>
    match plainEscape? c, textBody r with
    | some x, some (cs, rest) => some (x :: cs, rest)
    | _, _ => none
  | c :: r =>
    match textBody r with
    | some (cs, rest) => some (c :: cs, rest)
    | none => none

/-- The inside of a block up to the first triple mark without a backslash before it. Triple
marks are looked for one after another and do not overlap. -/
def blockBody (escaped : Bool) : List Char → Option (List Char × List Char)
  | '"' :: '"' :: '"' :: r =>
    if escaped then
      match blockBody false r with
      | some (cs, rest) => some ('"' :: '"' :: '"' :: cs, rest)
      | none => none
    else some ([], r)
  | c :: r =>
    match blockBody (c = '\\') r with
    | some (cs, rest) => some (c :: cs, rest)
    | none => none
  | [] => none

theorem length_of_blockBody {escaped : Bool} {cs xs rest : List Char}
    (h : blockBody escaped cs = some (xs, rest)) : rest.length < cs.length := by
  fun_induction blockBody escaped cs generalizing xs rest <;>
    simp only [List.length_cons, List.length_nil] <;> grind

def pieces : List Char → List (List Char × Bool)
  | [] => [([], false)]
  | c :: r =>
    if c = '\n' then ([], true) :: pieces r
    else
      match pieces r with
      | [] => [([c], false)]
      | (l, ended) :: ls => (c :: l, ended) :: ls

/-- Lines end at a line feed, with or without a carriage return before it; after the last line
feed there is a line only if there is text. -/
def lines (cs : List Char) : List (List Char) :=
  ((pieces cs).filter fun p => p.2 || !p.1.isEmpty).map fun p =>
    if p.2 ∧ p.1.getLast? = some '\r' then p.1.dropLast else p.1

def isEmptyLine (l : List Char) : Bool := l.all Text.isBlank

def indentOf (l : List Char) : Nat := Text.byteSize (l.takeWhile Text.isBlank)

def commonIndent (ls : List (List Char)) : Option Nat :=
  ((ls.filter fun l => !isEmptyLine l).map indentOf).min?

def dropBytes : Nat → List Char → List Char
  | 0, cs => cs
  | _, [] => []
  | n + 1, c :: cs => dropBytes (n + 1 - c.utf8Size) cs

def cutIndent (indent : Nat) (l : List Char) : List Char :=
  if indent ≤ Text.byteSize l then dropBytes indent l else l

def unescapeMarks : List Char → List Char
  | '\\' :: '"' :: '"' :: '"' :: r => '"' :: '"' :: '"' :: unescapeMarks r
  | c :: r => c :: unescapeMarks r
  | [] => []

/-- The first line keeps its white space and does not count for the common indentation. -/
def blockText (body : List Char) : List Char :=
  match lines body with
  | [] => []
  | first :: more =>
    let ls :=
      match commonIndent more with
      | some indent => first :: more.map (cutIndent indent)
      | none => first :: more
    let empty := (first :: more).map isEmptyLine
    let kept := ((ls.zip empty).dropWhile Prod.snd).reverse.dropWhile Prod.snd
    ['\n'].intercalate (kept.reverse.map fun l => unescapeMarks l.1)

end SchemaGraph.Sdl
