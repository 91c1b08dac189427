/-! Why a text is no JSON, and where: a fault knows what of the text was left when it was
noticed, and how many bytes of that it had already looked at. -/

namespace SchemaGraph.Json

inductive FaultKind where
  | endInValue
  | endInList
  | endInObject
  | endInString
  | expectedColon
  | expectedListEnd
  | expectedObjectEnd
  | expectedWord
  | expectedValue
  | expectedKey
  | badEscape
  | badNumber
  | numberOutOfRange
  | controlCharacter
  | loneSurrogate
  | unfinishedSurrogate
  | trailingComma
  | trailingCharacters
  | nestedTooDeep
  deriving DecidableEq

def FaultKind.message : FaultKind → String
  | .endInValue => "EOF while parsing a value"
  | .endInList => "EOF while parsing a list"
  | .endInObject => "EOF while parsing an object"
  | .endInString => "EOF while parsing a string"
  | .expectedColon => "expected `:`"
  | .expectedListEnd => "expected `,` or `]`"
  | .expectedObjectEnd => "expected `,` or `\x7d`"
  | .expectedWord => "expected ident"
  | .expectedValue => "expected value"
  | .expectedKey => "key must be a string"
  | .badEscape => "invalid escape"
  | .badNumber => "invalid number"
  | .numberOutOfRange => "number out of range"
  | .controlCharacter => "control character (\\u0000-\\u001F) found while parsing a string"
  | .loneSurrogate => "lone leading surrogate in hex escape"
  | .unfinishedSurrogate => "unexpected end of hex escape"
  | .trailingComma => "trailing comma"
  | .trailingCharacters => "trailing characters"
  | .nestedTooDeep => "recursion limit exceeded"

structure Fault where
  kind : FaultKind
  ahead : Nat
  rest : List Char

structure Place where
  line : Nat
  column : Nat
  deriving DecidableEq

def Place.step (p : Place) (c : Char) : Place :=
  if c = '\n' then ⟨p.line + 1, 0⟩ else ⟨p.line, p.column + c.utf8Size⟩

def Place.advance (p : Place) (bytes : Nat) : List Char → Place
  | [] => p
  | c :: cs =>
    if c.utf8Size ≤ bytes then (p.step c).advance (bytes - c.utf8Size) cs
    else ⟨p.line, p.column + bytes⟩

def Fault.place (source : List Char) (f : Fault) : Place :=
  let before := source.take (source.length - f.rest.length)
  (before.foldl Place.step ⟨1, 0⟩).advance f.ahead f.rest

/-- The cause and its place, as in `expected value at line 1 column 5`. -/
def Fault.describe (source : List Char) (f : Fault) : String :=
  let place := f.place source
  f.kind.message ++ " at line " ++ place.line.repr ++ " column " ++ place.column.repr

end SchemaGraph.Json
