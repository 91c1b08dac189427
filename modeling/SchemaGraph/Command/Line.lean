import SchemaGraph.Command.Options
import SchemaGraph.Query.Params

/-! The commands, and the words that call for them. -/

namespace SchemaGraph

inductive QueryKind where
  | aggregate
  | get
  | list
  | search
  deriving DecidableEq

structure QueryCommand where
  cursor : Option String
  externalId : Option String
  fields : List String
  filter : Option String
  kind : QueryKind
  limit : Nat
  nestedLimit : Nat
  path : String
  searchTerm : Option String
  sort : Option String
  space : Option String
  typeName : String

inductive Command where
  | classifyError (path : String)
  | query (q : QueryCommand)
  | types (builtins : Bool) (path : String)
  | validate (extensions : List String) (paths : List String)

namespace Command

open Options

def queryKinds : List (String × QueryKind) :=
  [("aggregate", .aggregate), ("get", .get), ("list", .list), ("search", .search)]

def numberBound : Nat := 0x100000000

def queryOptions : Declared :=
  ⟨[("cursor", .text), ("external-id", .text), ("fields", .texts), ("filter", .text),
    ("kind", .oneOf (queryKinds.map Prod.fst)), ("limit", .natBelow numberBound),
    ("nested-limit", .natBelow numberBound), ("search-term", .text), ("sort", .text),
    ("space", .text), ("type", .text)], false⟩

def typesOptions : Declared := ⟨[("builtins", .flag)], false⟩

def validateOptions : Declared := ⟨[("graphql-file-exts", .texts)], true⟩

def pathOnly : Declared := ⟨[], false⟩

def required {α : Type} : Option α → Except UsageError α
  | some a => .ok a
  | none => .error .missingRequiredArgument

def number (g : Given) (name : String) (default : Nat) : Nat :=
  (((g.value? name).bind int?).map Int.toNat).getD default

def parseQuery (words : List String) : Except UsageError QueryCommand := do
  let g ← Options.parse queryOptions words
  let path ← required g.paths.head?
  let typeName ← required (g.value? "type")
  pure
    { cursor := g.value? "cursor"
      externalId := g.value? "external-id"
      fields := g.values "fields"
      filter := g.value? "filter"
      kind := ((g.value? "kind").bind (List.lookup · queryKinds)).getD .list
      limit := number g "limit" 100
      nestedLimit := number g "nested-limit" defaultNestedLimit
      path := path
      searchTerm := g.value? "search-term"
      sort := g.value? "sort"
      space := g.value? "space"
      typeName := typeName }

def defaultExtensions : List String := ["graphql", "graphqls"]

def parseNamed? (name : String) (words : List String) : Option (Except UsageError Command) :=
  match name with
  | "classify-error" => some do
    let g ← Options.parse pathOnly words
    classifyError <$> required g.paths.head?
  | "query" => some (query <$> parseQuery words)
  | "types" => some do
    let g ← Options.parse typesOptions words
    types (g.has "builtins") <$> required g.paths.head?
  | "validate" => some do
    let g ← Options.parse validateOptions words
    let _ ← required g.paths.head?
    let extensions :=
      if g.has "graphql-file-exts" then g.values "graphql-file-exts" else defaultExtensions
    pure (validate extensions g.paths)
  | _ => none

def names : List String := ["classify-error", "query", "types", "validate"]

def helpOn : List String → UsageError
  | [] => .displayHelp
  | [name] => if (names ++ ["help"]).contains name then .displayHelp else .invalidSubcommand
  | _ => .invalidSubcommand

def parseLetters (verbose : Bool) : List Char → Except UsageError Bool
  | [] => .ok verbose
  | 'v' :: cs => if verbose then .error .argumentConflict else parseLetters true cs
  | 'h' :: _ => .error .displayHelp
  | 'V' :: _ => .error .displayVersion
  | _ => .error .unknownArgument

def afterDashes : List String → Except UsageError (Option Command)
  | [] => .ok none
  | word :: _ =>
    if (names ++ ["help"]).contains word then .error .unknownArgument
    else .error .invalidSubcommand

def parseFrom (verbose : Bool) : List String → Except UsageError (Option Command)
  | [] => .ok none
  | word :: words =>
    match parseNamed? word words with
    | some c => some <$> c
    | none =>
      if word = "help" then .error (helpOn words)
      else if word = "--" then afterDashes words
      else
        match word.toList with
        | '-' :: '-' :: name =>
          match Text.splitOnce '=' (String.ofList name) with
          | some (name, _) =>
            if ["verbose", "help", "version"].contains name then .error .tooManyValues
            else .error .unknownArgument
          | none =>
            match String.ofList name with
            | "verbose" => if verbose then .error .argumentConflict else parseFrom true words
            | "help" => .error .displayHelp
            | "version" => .error .displayVersion
            | _ => .error .unknownArgument
        | '-' :: c :: cs =>
          match parseLetters verbose (c :: cs) with
          | .error e => .error e
          | .ok verbose => parseFrom verbose words
        | _ => .error .invalidSubcommand

def parse (words : List String) : Except UsageError (Option Command) := parseFrom false words

end Command

end SchemaGraph
