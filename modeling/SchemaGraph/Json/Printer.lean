import SchemaGraph.Decimal.Layout
import SchemaGraph.Json.Basic

/-! JSON text, either without any white space or with one item a line. -/

namespace SchemaGraph.Json

def hexDigit (n : Nat) : Char := Nat.digitChar (n % 16)

def escapeChar (c : Char) : List Char :=
  if c = '"' then ['\\', '"']
  else if c = '\\' then ['\\', '\\']
  else if c = '\n' then ['\\', 'n']
  else if c = '\r' then ['\\', 'r']
  else if c = '\t' then ['\\', 't']
  else if c = '\x08' then ['\\', 'b']
  else if c = '\x0c' then ['\\', 'f']
  else if c.toNat < 0x20 then
    ['\\', 'u', '0', '0', hexDigit (c.toNat / 16), hexDigit c.toNat]
  else [c]

def quoted (s : String) : List Char := '"' :: (s.toList.flatMap escapeChar ++ ['"'])

def word (s : String) : List Char := s.toList

mutual

def compactChars : Json → List Char
  | .null => word "null"
  | .bool true => word "true"
  | .bool false => word "false"
  | .int n => n.repr.toList
  | .float x => (Decimal.json x).toList
  | .string s => quoted s
  | .array [] => ['[', ']']
  | .array (j :: js) => '[' :: (compactChars j ++ compactItems js)
  | .object [] => ['{', '}']
  | .object ((name, j) :: ms) =>
    '{' :: (quoted name ++ ':' :: (compactChars j ++ compactMembers ms))
  | .unreadable => word "null"

def compactItems : List Json → List Char
  | [] => [']']
  | j :: js => ',' :: (compactChars j ++ compactItems js)

def compactMembers : List (String × Json) → List Char
  | [] => ['}']
  | (name, j) :: ms => ',' :: (quoted name ++ ':' :: (compactChars j ++ compactMembers ms))

end

def compact (j : Json) : String := String.ofList (compactChars j)

def newline (depth : Nat) : List Char := '\n' :: List.replicate (2 * depth) ' '

mutual

def prettyChars (depth : Nat) : Json → List Char
  | .array (j :: js) =>
    '[' :: (newline (depth + 1) ++ (prettyChars (depth + 1) j ++ prettyItems depth js))
  | .object ((name, j) :: ms) =>
    '{' :: (newline (depth + 1) ++
      (quoted name ++ ':' :: ' ' :: (prettyChars (depth + 1) j ++ prettyMembers depth ms)))
  | j => compactChars j

def prettyItems (depth : Nat) : List Json → List Char
  | [] => newline depth ++ [']']
  | j :: js =>
    ',' :: (newline (depth + 1) ++ (prettyChars (depth + 1) j ++ prettyItems depth js))

def prettyMembers (depth : Nat) : List (String × Json) → List Char
  | [] => newline depth ++ ['}']
  | (name, j) :: ms =>
    ',' :: (newline (depth + 1) ++
      (quoted name ++ ':' :: ' ' :: (prettyChars (depth + 1) j ++ prettyMembers depth ms)))

end

def pretty (j : Json) : String := String.ofList (prettyChars 0 j)

end SchemaGraph.Json
