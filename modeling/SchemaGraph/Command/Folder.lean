import SchemaGraph.Text.Split

/-! A folder with all that is in it, and the paths that lead through it. -/

namespace SchemaGraph

inductive Node where
  /-- A file with its text; `none` stands for bytes that are no text. -/
  | file (text : Option String)
  | folder (entries : List (String × Node))

inductive FileError where
  | notFound
  | notDirectory
  | isDirectory
  | notText
  | nameTooLong
  | nulInName
  deriving DecidableEq

def FileError.message : FileError → String
  | .notFound => "No such file or directory (os error 2)"
  | .notDirectory => "Not a directory (os error 20)"
  | .isDirectory => "Is a directory (os error 21)"
  | .notText => "stream did not contain valid UTF-8"
  | .nameTooLong => "File name too long (os error 36)"
  | .nulInName => "file name contained an unexpected NUL byte"

abbrev Finder := String → Except FileError Node

def longestName : Nat := 255

def longestPath : Nat := 4095

def pathFault? (path : String) : Option FileError :=
  if path.toList.contains '\x00' then some .nulInName
  else if longestPath < path.utf8ByteSize then some .nameTooLong
  else none

structure Found where
  files : List (String × Except FileError String)
  faults : List (String × FileError)

def Found.append (a b : Found) : Found := ⟨a.files ++ b.files, a.faults ++ b.faults⟩

namespace Node

/-- Follows the parts of a path; `above` are the folders around `node`, the nearest first. The
folders around all that is known are taken to be empty. -/
def walk (above : List Node) (node : Node) : List String → Except FileError Node
  | [] => .ok node
  | part :: parts =>
    match node with
    | .file _ => .error .notDirectory
    | .folder entries =>
      if part = "" ∨ part = "." then walk above node parts
      else if part = ".." then
        match above with
        | [] => walk [] (.folder []) parts
        | outer :: above => walk above outer parts
      else if longestName < part.utf8ByteSize then .error .nameTooLong
      else
        match entries.lookup part with
        | none => .error .notFound
        | some inner => walk (node :: above) inner parts

def find (root : Node) : Finder := fun path =>
  match pathFault? path with
  | some e => .error e
  | none =>
    let start := if path.toList.head? = some '/' then folder [] else root
    start.walk [] (Text.split '/' path)

def readText : Node → Except FileError String
  | .file (some s) => .ok s
  | .file none => .error .notText
  | .folder _ => .error .isDirectory

def join (path name : String) : String :=
  if path.toList.getLast? = some '/' then path ++ name else path ++ "/" ++ name

mutual

/-- What is at or under a node that a path led to. Paths grow on the way down and can get too long
to be followed. -/
def found (path : String) : Node → Found
  | .file text =>
    match pathFault? path with
    | some e => ⟨[(path, .error e)], []⟩
    | none => ⟨[(path, readText (.file text))], []⟩
  | .folder entries =>
    match pathFault? path with
    | some e => ⟨[], [(path, e)]⟩
    | none => foundIn path entries

def foundIn (path : String) : List (String × Node) → Found
  | [] => ⟨[], []⟩
  | (name, node) :: rest => (found (join path name) node).append (foundIn path rest)

end

def entries : Node → List (String × Node)
  | .folder entries => entries
  | .file _ => []

def change (f : Node → Node) : List String → Node → Node
  | [], node => f node
  | name :: names, node =>
    let inner := (node.entries.lookup name).getD (.folder [])
    .folder (node.entries.filter (fun e => e.1 ≠ name) ++ [(name, change f names inner)])

def step (names : List String) (part : String) : List String :=
  if part = "" ∨ part = "." then names
  else if part = ".." then names.tail
  else part :: names

def makeFolder (path : String) (root : Node) : Node :=
  ((Text.split '/' path).foldl (fun (names, node) part =>
    let names := step names part
    (names, node.change (fun n => .folder n.entries) names.reverse)) ([], root)).2

def putFile (text : Option String) (path : String) (root : Node) : Node :=
  let parts := Text.split '/' path
  (root.makeFolder ("/".intercalate parts.dropLast)).change (fun _ => .file text)
    (parts.foldl step []).reverse

end Node

/-- What follows the last dot of a file's name, unless the name begins with its only dot. -/
def extension? (path : String) : Option String :=
  let name := ((Text.split '/' path).getLast?.getD "").toList
  match (name.reverse.dropWhile (· ≠ '.')).drop 1 with
  | [] => none
  | _ :: _ => some (String.ofList (name.reverse.takeWhile (· ≠ '.')).reverse)

end SchemaGraph
