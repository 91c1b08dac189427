/-! String literals of the schema language. A quote, a backslash, and the three line and tab
characters are written with a backslash; every other character stands for itself. -/

namespace SchemaGraph.Text

def escapeChar : Char → List Char
  | '"' => ['\\', '"']
  | '\\' => ['\\', '\\']
  | '\n' => ['\\', 'n']
  | '\r' => ['\\', 'r']
  | '\t' => ['\\', 't']
  | c => [c]

def escape (cs : List Char) : List Char := cs.flatMap escapeChar

def quote (s : String) : String :=
  String.ofList ('"' :: (escape s.toList ++ ['"']))

theorem toList_quote (s : String) :
    (quote s).toList = '"' :: (escape s.toList ++ ['"']) :=
  String.toList_ofList

end SchemaGraph.Text
