import SchemaGraph.Decimal.Shortest

/-! Two ways to lay out the shortest decimal of a floating-point number: the plain one of
schema literals, which never has an exponent, and the one of JSON, which always shows that the
number is no integer and writes very large and very small numbers with an exponent. -/

namespace SchemaGraph.Decimal

def zeros (n : Nat) : List Char := List.replicate n '0'

/-- Digits without exponent; `point` is what follows the digits of a whole number. -/
def positional (point : List Char) (d : Scientific) : List Char :=
  let ds := Nat.toDigits 10 d.digits
  match d.exponent with
  | .ofNat e => ds ++ zeros e ++ point
  | .negSucc e =>
    let places := e + 1
    if places < ds.length then
      ds.take (ds.length - places) ++ '.' :: ds.drop (ds.length - places)
    else '0' :: '.' :: (zeros (places - ds.length) ++ ds)

def withExponent (d : Scientific) : List Char :=
  let ds := Nat.toDigits 10 d.digits
  let e : Int := d.exponent + (ds.length : Int) - 1
  let fraction := if ds.length = 1 then [] else '.' :: ds.drop 1
  let sign := if e < 0 then '-' else '+'
  ds.take 1 ++ fraction ++ 'e' :: sign :: Nat.toDigits 10 e.natAbs

def signed (negative : Bool) (cs : List Char) : String :=
  String.ofList (if negative then '-' :: cs else cs)

/-- The layout of schema literals: `1`, `0.1`, `-0`, `1000000000000000000000`, `inf`. -/
def plain : Binary64 → String
  | .infinite negative => signed negative ['i', 'n', 'f']
  | .finite negative m e =>
    signed negative (if m = 0 then ['0'] else positional [] (shortest .up m e))

/-- The layout of JSON numbers: `1.0`, `0.00001`, `-0.0`, `1e-6`, `1.5e+16`. -/
def json : Binary64 → String
  | .infinite negative => signed negative ['i', 'n', 'f']
  | .finite negative m e =>
    if m = 0 then signed negative ['0', '.', '0']
    else
      let d := shortest .even m e
      let lead := d.exponent + ((Nat.toDigits 10 d.digits).length : Int) - 1
      signed negative
        (if -5 ≤ lead ∧ lead < 16 then positional ['.', '0'] d else withExponent d)

end SchemaGraph.Decimal
