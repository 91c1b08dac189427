import SchemaGraph.Text.Unprintable

/-! Texts shown in messages: between quotation marks, with a backslash before such
marks and backslashes, and with a number in place of what cannot be printed. -/

namespace SchemaGraph.Text

def codePoint (c : Char) : List Char :=
  '\\' :: 'u' :: '\x7b' :: (Nat.toDigits 16 c.toNat ++ ['\x7d'])

def showChar (c : Char) : List Char :=
  match c with
  | '\x00' => ['\\', '0']
  | '\t' => ['\\', 't']
  | '\n' => ['\\', 'n']
  | '\r' => ['\\', 'r']
  | '"' => ['\\', '"']
  | '\\' => ['\\', '\\']
  | c => if c.toNat < 0x20 ∨ c.toNat = 0x7f ∨ isUnprintable c then codePoint c else [c]

def shown (s : String) : String := String.ofList ('"' :: (s.toList.flatMap showChar ++ ['"']))

end SchemaGraph.Text
