import SchemaGraph.Decimal.Binary64

/-! The shortest decimal that reads back as a given floating-point number. Grids of one, two,
… seventeen digits are tried in turn; on each only the two neighbours of the number can lie in
the interval of decimals that round to it. -/

namespace SchemaGraph.Decimal

structure Scientific where
  digits : Nat
  exponent : Int
  deriving DecidableEq

/-- Which of two equally near decimals of the same length is written. -/
inductive Tie where
  | up
  | even

def leadingExponent (a : Binary64.Ratio) : Int :=
  if a.den ≤ a.num then ((Nat.toDigits 10 (a.num / a.den)).length : Int) - 1
  else -((Nat.toDigits 10 ((a.den - 1) / a.num)).length : Int)

/-- The nearer neighbour of `value` on the grid `10 ^ k` among those that are no further away
than `below` and `above` allow; `closed` says whether the limits themselves count. -/
def onGrid (tie : Tie) (closed : Bool) (value below above : Binary64.Ratio) (k : Int) :
    Option Scientific :=
  let step := Binary64.Ratio.power 10 k
  let v := value.div step
  let q := v.num / v.den
  let r := v.num % v.den
  let within (gap : Nat) (limit : Binary64.Ratio) : Bool :=
    let limit := limit.div step
    let g := gap * limit.den
    let l := limit.num * v.den
    if closed then g ≤ l else g < l
  match within r below, within (v.den - r) above with
  | false, false => none
  | true, false => some ⟨q, k⟩
  | false, true => some ⟨q + 1, k⟩
  | true, true =>
    if 2 * r < v.den then some ⟨q, k⟩
    else if v.den < 2 * r then some ⟨q + 1, k⟩
    else match tie with
      | .up => some ⟨q + 1, k⟩
      | .even => some ⟨if q % 2 = 0 then q else q + 1, k⟩

def stripZeros (d : Scientific) : Scientific :=
  let zeros := ((Nat.toDigits 10 d.digits).reverse.takeWhile (· = '0')).length
  ⟨d.digits / Nat.pow 10 zeros, d.exponent + zeros⟩

def shortest (tie : Tie) (significand : Nat) (exponent : Int) : Scientific :=
  let value := Binary64.ratio significand exponent
  let half := Binary64.ratio 1 (exponent - 1)
  let below :=
    if significand = Binary64.leadingBit ∧ Binary64.leastExponent < exponent then
      Binary64.ratio 1 (exponent - 2)
    else half
  let lead := leadingExponent value
  let grids := (List.range 17).map fun (n : Nat) => lead - (n : Int)
  match grids.findSome? (onGrid tie (significand % 2 = 0) value below half) with
  | some d => stripZeros d
  | none => ⟨significand, exponent⟩

end SchemaGraph.Decimal
