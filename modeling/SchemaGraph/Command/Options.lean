import SchemaGraph.Text.Split

/-! The words of a command line. Long options take their value from the same word, after an
equals sign, or from the next one; options and paths may be mixed; after a double dash there
are only paths. A value is looked at when the next word that is understood comes, so that a word
that is not understood is complained about first. -/

namespace SchemaGraph

inductive UsageError where
  | displayHelp
  | displayVersion
  | invalidSubcommand
  | unknownArgument
  | missingRequiredArgument
  | invalidValue
  | valueValidation
  | argumentConflict
  | tooManyValues
  deriving DecidableEq

def UsageError.kind : UsageError → String
  | .displayHelp => "DisplayHelp"
  | .displayVersion => "DisplayVersion"
  | .invalidSubcommand => "InvalidSubcommand"
  | .unknownArgument => "UnknownArgument"
  | .missingRequiredArgument => "MissingRequiredArgument"
  | .invalidValue => "InvalidValue"
  | .valueValidation => "ValueValidation"
  | .argumentConflict => "ArgumentConflict"
  | .tooManyValues => "TooManyValues"

namespace Options

inductive ValueKind where
  | flag
  | text
  /-- Any number of texts with commas between them; the option may be repeated. -/
  | texts
  | oneOf (words : List String)
  | natBelow (bound : Nat)

structure Declared where
  options : List (String × ValueKind)
  manyPaths : Bool

structure Given where
  options : List (String × String)
  paths : List String

def Given.value? (g : Given) (name : String) : Option String := g.options.lookup name

def Given.has (g : Given) (name : String) : Bool := (g.value? name).isSome

def Given.values (g : Given) (name : String) : List String :=
  (g.options.filter fun e => e.1 = name).map Prod.snd

inductive Pending where
  | nothing
  | option (name : String) (kind : ValueKind) (value : Option String)
  | paths (paths : List String)

def int? (s : String) : Option Int :=
  match s.toList with
  | '-' :: cs => (digits cs).map fun n => -(n : Int)
  | '+' :: cs => (digits cs).map fun n => (n : Int)
  | cs => (digits cs).map fun n => (n : Int)
where
  digits (cs : List Char) : Option Nat :=
    if cs.isEmpty ∨ !cs.all Char.isDigit then none else some (Nat.ofDigitChars 10 cs 0)

def ValueKind.check (value : String) : ValueKind → Except UsageError Unit
  | .oneOf words => if words.contains value then .ok () else .error .invalidValue
  | .natBelow bound =>
    if (int? value).any fun n => 0 ≤ n ∧ n < (bound : Int) then .ok ()
    else .error .valueValidation
  | _ => .ok ()

def settleOption (g : Given) (name : String) (kind : ValueKind) (value : String) :
    Except UsageError Given :=
  match kind with
  | .texts =>
    .ok { g with options := g.options ++ (Text.split ',' value).map fun v => (name, v) }
  | kind =>
    if g.has name then .error .argumentConflict
    else
      match kind.check value with
      | .error e => .error e
      | .ok () => .ok { g with options := g.options ++ [(name, value)] }

def settle (g : Given) : Pending → Except UsageError Given
  | .nothing => .ok g
  | .option _ _ none => .error .invalidValue
  | .option name kind (some value) => settleOption g name kind value
  | .paths ps =>
    if ps.contains "" then .error .invalidValue else .ok { g with paths := g.paths ++ ps }

structure Scan where
  given : Given
  pending : Pending
  pathCount : Nat

def addPath (d : Declared) (s : Scan) (path : String) : Except UsageError Scan :=
  if !d.manyPaths ∧ 0 < s.pathCount then .error .unknownArgument
  else
    match s.pending with
    | .paths ps => .ok ⟨s.given, .paths (ps ++ [path]), s.pathCount + 1⟩
    | pending => (settle s.given pending).map fun g => ⟨g, .paths [path], s.pathCount + 1⟩

def addLong (d : Declared) (s : Scan) (word : String) : Except UsageError Scan :=
  let (name, attached) :=
    match Text.splitOnce '=' word with
    | some (name, value) => (name, some value)
    | none => (word, none)
  let kind? := if name = "help" then some .flag else d.options.lookup name
  match kind?, attached with
  | none, _ => .error .unknownArgument
  | some .flag, some _ => .error .tooManyValues
  | some .flag, none => do
    let g ← settle s.given s.pending
    if name = "help" then throw .displayHelp
    let g ← settleOption g name .flag ""
    pure { s with given := g, pending := .nothing }
  | some kind, some value => do
    let g ← settle s.given s.pending
    let g ← settleOption g name kind value
    pure { s with given := g, pending := .nothing }
  | some kind, none => do
    let g ← settle s.given s.pending
    pure { s with given := g, pending := .option name kind none }

def addShort (s : Scan) (letters : List Char) : Except UsageError Scan :=
  if letters.head? = some 'h' then
    match settle s.given s.pending with
    | .error e => .error e
    | .ok _ => .error .displayHelp
  else .error .unknownArgument

def addWord (d : Declared) (s : Scan) (word : String) : Except UsageError Scan :=
  match word.toList with
  | '-' :: '-' :: name => addLong d s (String.ofList name)
  | '-' :: c :: cs => addShort s (c :: cs)
  | _ =>
    match s.pending with
    | .option name kind none => .ok { s with pending := .option name kind (some word) }
    | _ => addPath d s word

def scan (d : Declared) (s : Scan) : List String → Except UsageError Scan
  | [] => .ok s
  | word :: words =>
    if word = "--" then words.foldlM (addPath d) s
    else
      match addWord d s word with
      | .error e => .error e
      | .ok s => scan d s words

def parse (d : Declared) (words : List String) : Except UsageError Given := do
  let s ← scan d ⟨⟨[], []⟩, .nothing, 0⟩ words
  settle s.given s.pending

end Options

end SchemaGraph
