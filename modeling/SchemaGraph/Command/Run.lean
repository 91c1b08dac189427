import SchemaGraph.Command.Folder
import SchemaGraph.Command.Line
import SchemaGraph.Failure.Record
import SchemaGraph.Graph.Loading
import SchemaGraph.Query.Build
import SchemaGraph.Text.Shown

/-! What the commands do, given what the paths of the command line lead to. -/

namespace SchemaGraph

structure Output where
  success : Bool
  stdout : Option String
  stderr : Option String
  deriving DecidableEq

namespace Output

def ok (s : String) : Output := ⟨true, some s, none⟩

def failed (s : String) : Output := ⟨false, none, some s⟩

def cross : String := "\u274c"

def check : String := "\u2705"

def complaint (s : String) : Output := failed (cross ++ " " ++ s)

end Output

def bulleted (items : List String) : String :=
  "\n".intercalate (items.map fun i => "  * " ++ i)

namespace Command

def textAt (find : Finder) (path : String) : Except FileError String :=
  match find path with
  | .error e => .error e
  | .ok node => node.readText

def loadSchema (find : Finder) (path : String) : Except String Graph :=
  match textAt find path with
  | .error e => .error ("Failed to read schema file " ++ Text.shown path ++ ": " ++ e.message)
  | .ok s =>
    match Graph.parse [] s with
    | .error e => .error ("Failed to load schema file " ++ Text.shown path ++ ": " ++ e.message)
    | .ok g => .ok g

def runTypes (find : Finder) (builtins : Bool) (path : String) : Output :=
  match loadSchema find path with
  | .error e => .complaint e
  | .ok g =>
    let custom := "Custom types:\n" ++ bulleted g.typeNames
    if builtins then
      .ok (custom ++ "\nBuilt-in types:\n" ++
        bulleted (Builtin.all.map fun b => b.name ++ " (" ++ b.kind.name ++ ")"))
    else .ok custom

def runClassifyError (find : Finder) (path : String) : Output :=
  match textAt find path with
  | .error e => .complaint ("Failed to read " ++ Text.shown path ++ ": " ++ e.message)
  | .ok s => .ok (Failure.ofText (Text.trim s)).display

def parseFilter : Option String → Except String (Option Json)
  | none => .ok none
  | some s =>
    match Json.parse s with
    | .ok j => .ok (some j)
    | .error e => .error ("`--filter` is not valid JSON: " ++ e)

def parseSort : Option String → Except String (Option SortOrder)
  | none => .ok none
  | some s =>
    match Text.splitOnce ':' s with
    | none => .error ("`--sort " ++ s ++ "` must look like `field:ASC`")
    | some (fieldName, direction) =>
      match direction.map Char.toUpper with
      | "ASC" => .ok (some ⟨.ascending, fieldName⟩)
      | "DESC" => .ok (some ⟨.descending, fieldName⟩)
      | other => .error ("Unknown sort direction `" ++ other ++ "`")

def demand {α : Type} (complaint : String) : Option α → Except String α
  | some a => .ok a
  | none => .error complaint

def described {α : Type} (r : Except QueryError α) : Except String α :=
  r.mapError QueryError.message

def buildQuery (g : Graph) (q : QueryCommand) : Except String Query := do
  let limitFields := if q.fields.isEmpty then none else some q.fields
  match q.kind with
  | .aggregate => described (g.aggregateQuery q.typeName)
  | .get =>
    let space ← demand "`--space` is required for get queries" q.space
    let externalId ← demand "`--external-id` is required for get queries" q.externalId
    described (g.getQuery
      ⟨externalId, limitFields, ∅, ∅, q.nestedLimit, space, q.typeName⟩)
  | .list =>
    let filter ← parseFilter q.filter
    let sort ← parseSort q.sort
    described (g.listQuery
      ⟨q.cursor, filter, q.limit, limitFields, q.nestedLimit, sort, q.typeName⟩)
  | .search =>
    let filter ← parseFilter q.filter
    described (g.searchQuery
      ⟨filter, some q.limit, limitFields, q.nestedLimit, q.searchTerm.getD "", q.typeName⟩)

def showQuery (q : Query) : String :=
  let text := String.ofList (Text.trimEnd q.text.toList)
  if q.values.isEmpty then text
  else
    let values := q.valuesJson.canonical.getD q.valuesJson
    text ++ "\n\nVariables:\n" ++ values.pretty

def runQuery (find : Finder) (q : QueryCommand) : Output :=
  match (loadSchema find q.path).bind fun g => buildQuery g q with
  | .error e => .complaint e
  | .ok built => .ok (showQuery built)

def findFiles (find : Finder) (path : String) : Found :=
  match find path with
  | .error e => ⟨[], [(path, e)]⟩
  | .ok node => node.found path

def faultComplaints (find : Finder) (path : String) : List String :=
  (findFiles find path).faults.map fun f =>
    Text.shown path ++ ": IO error for operation on " ++ f.1 ++ ": " ++ f.2.message

/-- The files that a run of validation looks at. A single file is taken whatever its extension. -/
def filesToCheck (find : Finder) (extensions paths : List String) :
    List (String × Except FileError String) :=
  let wanted := extensions.map fun e => String.ofList (e.toList.dropWhile (· = '.'))
  let files := paths.flatMap fun path =>
    (findFiles find path).files.filter fun f => (extension? f.1).any wanted.contains
  match files, paths with
  | [], [path] =>
    match find path with
    | .ok (.file text) => [(path, Node.readText (.file text))]
    | _ => []
  | files, _ => files

def checkFile (text : Except FileError String) : Except (List String) Nat :=
  match text with
  | .error e => .error [e.message]
  | .ok s =>
    match schemaErrors s with
    | e :: es => .error ((e :: es).map SchemaError.message)
    | [] =>
      match Graph.parse [] s with
      | .ok g => .ok g.size
      | .error e => .error [e.message]

def fileComplaints (f : String × Except FileError String) : List String :=
  match checkFile f.2 with
  | .ok _ => []
  | .error es => es.map fun e => Text.shown f.1 ++ ": " ++ e

def typeCount : List (String × Except FileError String) → Nat
  | [] => 0
  | f :: fs => (checkFile f.2).toOption.getD 0 + typeCount fs

def runValidate (find : Finder) (extensions paths : List String) : Output :=
  let files := filesToCheck find extensions paths
  match paths.flatMap (faultComplaints find) ++ files.flatMap fileComplaints with
  | [] =>
    .ok (Output.check ++ " All data model schemas validated successfully:\n" ++
      "  * Analyzed " ++ files.length.repr ++ " files.\n" ++
      "  * Validated " ++ (typeCount files).repr ++ " type definitions.")
  | cs => .failed (Output.cross ++ " Data model validation errors:\n" ++ bulleted cs)

def run (find : Finder) : Command → Output
  | .classifyError path => runClassifyError find path
  | .query q => runQuery find q
  | .types builtins path => runTypes find builtins path
  | .validate extensions paths => runValidate find extensions paths

end Command

end SchemaGraph
