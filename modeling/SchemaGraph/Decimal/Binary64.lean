/-! Floating-point numbers of 64 bits as exact data: a sign and either a magnitude
`significand * 2 ^ exponent` or infinity. Every operation is exact arithmetic followed by one
rounding to the nearest number, ties to the even significand. -/

namespace SchemaGraph

inductive Binary64 where
  | finite (negative : Bool) (significand : Nat) (exponent : Int)
  | infinite (negative : Bool)
  deriving DecidableEq

namespace Binary64

/-- A quotient of naturals; the divisor is meant to be positive. -/
structure Ratio where
  num : Nat
  den : Nat

namespace Ratio

def mul (a b : Ratio) : Ratio := ⟨a.num * b.num, a.den * b.den⟩

def div (a b : Ratio) : Ratio := ⟨a.num * b.den, a.den * b.num⟩

def power (b : Nat) : Int → Ratio
  | .ofNat e => ⟨Nat.pow b e, 1⟩
  | .negSucc e => ⟨1, Nat.pow b (e + 1)⟩

def roundHalfEven (a : Ratio) : Nat :=
  let q := a.num / a.den
  let r := a.num % a.den
  if 2 * r < a.den then q
  else if a.den < 2 * r then q + 1
  else if q % 2 = 0 then q else q + 1

end Ratio

def leadingBit : Nat := 0x10000000000000

def leastExponent : Int := -1074

def greatestExponent : Int := 971

/-- The weight of the last of 53 bits of a positive quotient, or the least weight there is. -/
def unitExponent (a : Ratio) : Int :=
  let e : Int := (a.num.log2 : Int) - (a.den.log2 : Int) - 52
  let s := a.div (.power 2 e)
  max leastExponent (if s.num < s.den * leadingBit then e - 1 else e)

def zero (negative : Bool) : Binary64 := .finite negative 0 leastExponent

def ofRatio (negative : Bool) (a : Ratio) : Binary64 :=
  if a.num = 0 then zero negative
  else
    let e := unitExponent a
    let m := (a.div (.power 2 e)).roundHalfEven
    let (m, e) := if m = 2 * leadingBit then (leadingBit, e + 1) else (m, e)
    if greatestExponent < e then .infinite negative else .finite negative m e

def ofNat (n : Nat) : Binary64 := ofRatio false ⟨n, 1⟩

/-- Digits and a power of ten. Powers far outside the range are settled without being
computed: a number below `10 ^ (-400)` is zero and one above `10 ^ 400` infinite. -/
def ofDecimal (negative : Bool) (digits : Nat) (exponent : Int) : Binary64 :=
  let size : Int := ((Nat.toDigits 10 digits).length : Int) + exponent
  if digits = 0 ∨ size < -400 then zero negative
  else if 400 < size then .infinite negative
  else ofRatio negative (.mul ⟨digits, 1⟩ (.power 10 exponent))

def ratio (significand : Nat) (exponent : Int) : Ratio :=
  .mul ⟨significand, 1⟩ (.power 2 exponent)

def isZero : Binary64 → Bool
  | .finite _ m _ => m = 0
  | .infinite _ => false

def neg : Binary64 → Binary64
  | .finite negative m e => .finite (!negative) m e
  | .infinite negative => .infinite (!negative)

def scale (x : Binary64) (a : Ratio) : Binary64 :=
  match x with
  | .finite negative m e => ofRatio negative ((ratio m e).mul a)
  | .infinite negative => .infinite negative

def powerOfTen (exponent : Int) : Ratio :=
  match ofRatio false (.power 10 exponent) with
  | .finite _ m e => ratio m e
  | .infinite _ => .power 10 exponent

end Binary64

end SchemaGraph
