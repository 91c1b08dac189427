import SchemaGraph.Decimal.Binary64

/-! Tokens of the schema language and the characters they are made of. -/

namespace SchemaGraph.Sdl

inductive Token where
  | punct (c : Char)
  | spread
  | name (s : String)
  | int (n : Int)
  | float (x : Binary64)
  | text (s : String)
  /-- What no token starts with, or a token with a fault in it. -/
  | bad
  deriving DecidableEq

def isNewline (c : Char) : Bool := c = '\n' || c = '\r'

def isSeparator (c : Char) : Bool :=
  c = ' ' || c = ',' || c = '\t' || c = '\r' || c = '\n' || c = '\ufeff'

def isPunct (c : Char) : Bool :=
  c = '!' || c = '$' || c = ':' || c = '=' || c = '@' || c = '|' || c = '&' ||
    c = '(' || c = ')' || c = '[' || c = ']' || c = '\x7b' || c = '\x7d'

def isLetter (c : Char) : Bool := ('a' ≤ c && c ≤ 'z') || ('A' ≤ c && c ≤ 'Z')

def isNameStart (c : Char) : Bool := c = '_' || isLetter c

def isNameChar (c : Char) : Bool := isNameStart c || c.isDigit

def isNumberStart (c : Char) : Bool := c = '-' || c.isDigit

def endsNumber (c : Char) : Bool :=
  c = ' ' || c = '\n' || c = '\r' || c = '\t' || c = ',' || c = '#' || isPunct c

def isName : List Char → Bool
  | [] => false
  | c :: cs => isNameStart c && cs.all isNameChar

end SchemaGraph.Sdl
