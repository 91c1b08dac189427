import SchemaGraph.Json.Basic
import SchemaGraph.Json.Fault

/-! JSON numbers. Digits are collected while they fit 64 bits; digits after that only move the
decimal point. A number without fraction or exponent is an integer if it fits 64 bits with or
without sign; every other number is the collected digits, rounded, times or divided by a
rounded power of ten. -/

namespace SchemaGraph.Json

def unsignedBound : Nat := 0x10000000000000000

def signedBound : Nat := 0x8000000000000000

def digitValue (c : Char) : Nat := c.toNat - '0'.toNat

def collect (significand : Nat) : List Char → Nat × Nat × List Char
  | [] => (significand, 0, [])
  | c :: cs =>
    let next := 10 * significand + digitValue c
    if c.isDigit ∧ next < unsignedBound then
      let (s, n, rest) := collect next cs
      (s, n + 1, rest)
    else (significand, 0, c :: cs)

def greatestPower : Nat := 308

/-- Rounded digits times a power of ten, in steps of powers that are floating-point numbers
themselves; `none` when the result is too large. -/
def assemble (significand : Nat) (exponent : Int) : Option Binary64 :=
  match exponent with
  | .ofNat e =>
    let x := Binary64.ofNat significand
    if e ≤ greatestPower then
      match x.scale (Binary64.powerOfTen e) with
      | .infinite _ => none
      | y => some y
    else if x.isZero then some x else none
  | .negSucc e => some (lower (e + 1) (Binary64.ofNat significand))
where
  lower (e : Nat) (x : Binary64) : Binary64 :=
    if _h : e ≤ greatestPower then divided x e
    else if x.isZero then x
    else lower (e - greatestPower) (divided x greatestPower)
  termination_by e
  decreasing_by simp only [greatestPower] at *; omega
  divided (x : Binary64) (e : Nat) : Binary64 :=
    x.scale (Binary64.Ratio.div ⟨1, 1⟩ (Binary64.powerOfTen e))

def signedFloat (negative : Bool) (x : Binary64) : Json :=
  .float (if negative then x.neg else x)

def wholeNumber (negative : Bool) (n : Nat) : Json :=
  if negative then
    if 0 < n ∧ n ≤ signedBound then .int (-(n : Int))
    else signedFloat true (Binary64.ofNat n)
  else .int n

def floatOrFault (strict negative : Bool) (significand : Nat) (exponent : Int)
    (rest : List Char) : Except Fault (Json × List Char) :=
  match assemble significand exponent with
  | some x => .ok (signedFloat negative x, rest)
  | none => if strict then .error ⟨.numberOutOfRange, 0, rest⟩ else .ok (.unreadable, rest)

def exponentBound : Nat := 0x80000000

def collectExponent (e : Nat) : List Char → Nat × Bool × List Char
  | [] => (e, false, [])
  | c :: cs =>
    if c.isDigit then
      if 10 * e + digitValue c < exponentBound then collectExponent (10 * e + digitValue c) cs
      else (e, true, cs)
    else (e, false, c :: cs)

def saturate (e : Int) : Int := max (-(exponentBound : Int)) (min ((exponentBound : Int) - 1) e)

def exponentPart (strict negative : Bool) (significand : Nat) (start : Int)
    (cs : List Char) : Except Fault (Json × List Char) :=
  let (down, digits) := match cs with
    | '-' :: r => (true, r)
    | '+' :: r => (false, r)
    | r => (false, r)
  match digits with
  | [] => .error ⟨.endInValue, 0, []⟩
  | c :: r =>
    if c.isDigit then
      match collectExponent (digitValue c) r with
      | (e, false, rest) =>
        floatOrFault strict negative significand
          (saturate (if down then start - e else start + e)) rest
      | (_, true, rest) =>
        if significand = 0 ∨ down then
          .ok (signedFloat negative (Binary64.zero false), rest.dropWhile Char.isDigit)
        else if strict then .error ⟨.numberOutOfRange, 0, rest⟩
        else .ok (.unreadable, rest.dropWhile Char.isDigit)
    else .error ⟨.badNumber, 1, c :: r⟩

def isExponentMark (c : Char) : Bool := c = 'e' || c = 'E'

def fractionPart (strict negative : Bool) (significand : Nat) (start : Int)
    (cs : List Char) : Except Fault (Json × List Char) :=
  let (s, n, rest) := collect significand cs
  match rest with
  | [] =>
    if n = 0 then .error ⟨.endInValue, 0, []⟩
    else floatOrFault strict negative s (start - n) []
  | c :: r =>
    if n = 0 ∧ !c.isDigit then .error ⟨.badNumber, 1, c :: r⟩
    else
      match (c :: r).dropWhile Char.isDigit with
      | [] => floatOrFault strict negative s (start - n) []
      | d :: t =>
        if isExponentMark d then exponentPart strict negative s (start - n) t
        else floatOrFault strict negative s (start - n) (d :: t)

def number (strict negative : Bool) (cs : List Char) : Except Fault (Json × List Char) :=
  match cs with
  | [] => .error ⟨.endInValue, 0, []⟩
  | c :: r =>
    if !c.isDigit then .error ⟨.badNumber, 1, c :: r⟩
    else if c = '0' ∧ (r.head?.any Char.isDigit) then .error ⟨.badNumber, 1, r⟩
    else
      let (s, _, rest) := if c = '0' then (0, 0, r) else collect (digitValue c) r
      let dropped := rest.takeWhile Char.isDigit
      let start : Int := dropped.length
      match rest.dropWhile Char.isDigit with
      | '.' :: t => fractionPart strict negative s start t
      | d :: t =>
        if isExponentMark d then exponentPart strict negative s start t
        else if dropped = [] then .ok (wholeNumber negative s, d :: t)
        else floatOrFault strict negative s start (d :: t)
      | [] =>
        if dropped = [] then .ok (wholeNumber negative s, [])
        else floatOrFault strict negative s start []

end SchemaGraph.Json
