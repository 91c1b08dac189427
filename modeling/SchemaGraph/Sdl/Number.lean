import SchemaGraph.Sdl.Token

/-! Numbers of the schema language. An integer has no superfluous zero and fits 64 bits with
sign. A number with a point or an exponent is split at the last of each. -/

namespace SchemaGraph.Sdl

def isDigits (cs : List Char) : Bool := cs.all Char.isDigit

def isWhole : List Char → Bool
  | '-' :: cs => isUnsigned cs
  | cs => isUnsigned cs
where
  isUnsigned : List Char → Bool
    | [] => false
    | ['0'] => true
    | c :: cs => c ≠ '0' && c.isDigit && isDigits cs

/-- An exponent begins with a sign or with a digit from `1` to `8`; more digits may follow. -/
def isExponent : List Char → Bool
  | [] => false
  | c :: cs =>
    isDigits cs && (if c = '+' || c = '-' then !cs.isEmpty else '1' ≤ c && c ≤ '8')

def natOf (cs : List Char) : Nat := Nat.ofDigitChars 10 cs 0

def intOf : List Char → Int
  | '-' :: cs => -(natOf cs : Int)
  | '+' :: cs => natOf cs
  | cs => natOf cs

def splitLast (p : Char → Bool) (cs : List Char) : Option (List Char × List Char) :=
  match cs.reverse.span fun c => !p c with
  | (_, []) => none
  | (after, _ :: before) => some (before.reverse, after.reverse)

def isExponentMark (c : Char) : Bool := c = 'e' || c = 'E'

def floatOf (whole fraction exponent : List Char) : Binary64 :=
  let digits := whole.filter Char.isDigit ++ fraction
  Binary64.ofDecimal (whole.head? = some '-') (natOf digits)
    (intOf exponent - (fraction.length : Int))

def decimal? (whole : List Char) (fraction : Option (List Char)) (exponent : Option (List Char)) :
    Option Binary64 :=
  if isWhole whole ∧ fraction.all (fun f => !f.isEmpty && isDigits f) ∧ exponent.all isExponent
  then some (floatOf whole (fraction.getD []) (exponent.getD []))
  else none

def fitsInt64 (n : Int) : Bool := -0x8000000000000000 ≤ n && n < 0x8000000000000000

def numberToken (cs : List Char) : Token :=
  if cs.any fun c => c = '.' || isExponentMark c then
    let float? : Option Binary64 :=
      match splitLast isExponentMark cs with
      | none =>
        match splitLast (· = '.') cs with
        | none => none
        | some (whole, fraction) => decimal? whole (some fraction) none
      | some (mantissa, exponent) =>
        if exponent.contains '.' then none
        else
          match splitLast (· = '.') mantissa with
          | none => decimal? mantissa none (some exponent)
          | some (whole, fraction) => decimal? whole (some fraction) (some exponent)
    match float? with
    | some x => .float x
    | none => .bad
  else if isWhole cs ∧ fitsInt64 (intOf cs) then .int (intOf cs)
  else .bad

end SchemaGraph.Sdl
