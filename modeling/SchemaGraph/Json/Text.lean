import SchemaGraph.Json.Fault
import SchemaGraph.Text.Basic

/-! The inside of a JSON string. A text may hold an escape for half of a surrogate pair; it then
has no value, which is a fault only to a strict reader. -/

namespace SchemaGraph.Json

def hexValue? (c : Char) : Option Nat :=
  if c.isDigit then some (c.toNat - '0'.toNat)
  else if 'a' ≤ c ∧ c ≤ 'f' then some (c.toNat - 'a'.toNat + 10)
  else if 'A' ≤ c ∧ c ≤ 'F' then some (c.toNat - 'A'.toNat + 10)
  else none

def hexFour (cs : List Char) : Except Fault (Nat × List Char) :=
  match cs with
  | a :: b :: c :: d :: r =>
    match hexValue? a, hexValue? b, hexValue? c, hexValue? d with
    | some a, some b, some c, some d => .ok (((a * 16 + b) * 16 + c) * 16 + d, r)
    | _, _, _, _ => .error ⟨.badEscape, 4, cs⟩
  | _ => .error (if Text.byteSize cs < 4 then ⟨.endInString, 3, cs⟩ else ⟨.badEscape, 4, cs⟩)

def isHighSurrogate (n : Nat) : Bool := 0xd800 ≤ n && n ≤ 0xdbff

def isLowSurrogate (n : Nat) : Bool := 0xdc00 ≤ n && n ≤ 0xdfff

def pairValue (high low : Nat) : Char :=
  Char.ofNat (0x10000 + (high - 0xd800) * 0x400 + (low - 0xdc00))

def lowHalf (cs : List Char) : Except Fault (Nat × List Char) :=
  match cs with
  | [] => .error ⟨.endInString, 0, []⟩
  | '\\' :: r =>
    match r with
    | [] => .error ⟨.endInString, 0, []⟩
    | 'u' :: t =>
      match hexFour t with
      | .error f => .error f
      | .ok (n, rest) =>
        if isLowSurrogate n then .ok (n, rest) else .error ⟨.loneSurrogate, 0, rest⟩
    | t => .error ⟨.unfinishedSurrogate, 1, t⟩
  | r => .error ⟨.unfinishedSurrogate, 1, r⟩

def unicodeEscape (strict : Bool) (cs : List Char) : Except Fault (Option Char × List Char) :=
  match hexFour cs with
  | .error f => .error f
  | .ok (n, rest) =>
    if isLowSurrogate n then
      if strict then .error ⟨.loneSurrogate, 0, rest⟩ else .ok (none, rest)
    else if isHighSurrogate n then
      match lowHalf rest with
      | .ok (low, rest) => .ok (some (pairValue n low), rest)
      | .error f => if strict then .error f else .ok (none, rest)
    else .ok (some (Char.ofNat n), rest)

def shortEscape? : Char → Option Char
  | '"' => some '"'
  | '\\' => some '\\'
  | '/' => some '/'
  | 'b' => some '\x08'
  | 'f' => some '\x0c'
  | 'n' => some '\n'
  | 'r' => some '\r'
  | 't' => some '\t'
  | _ => none

def escaped (strict : Bool) (cs : List Char) : Except Fault (Option Char × List Char) :=
  match cs with
  | [] => .error ⟨.endInString, 0, []⟩
  | c :: r =>
    if c = 'u' then unicodeEscape strict r
    else
      match shortEscape? c with
      | some d => .ok (some d, r)
      | none => .error ⟨.badEscape, 1, c :: r⟩

theorem length_of_hexFour {cs rest : List Char} {n : Nat} (h : hexFour cs = .ok (n, rest)) :
    rest.length ≤ cs.length := by
  unfold hexFour at h
  split at h
  · split at h
    · simp only [Except.ok.injEq, Prod.mk.injEq] at h
      simp only [← h.2, List.length_cons]
      omega
    · simp at h
  · simp at h

theorem length_of_lowHalf {cs rest : List Char} {n : Nat} (h : lowHalf cs = .ok (n, rest)) :
    rest.length ≤ cs.length := by
  unfold lowHalf at h
  split at h
  · simp at h
  · split at h
    · simp at h
    · split at h
      · simp at h
      · rename_i heq
        have := length_of_hexFour heq
        split at h
        · simp only [Except.ok.injEq, Prod.mk.injEq] at h
          simp only [← h.2, List.length_cons]
          omega
        · simp at h
    · simp at h
  · simp at h

theorem length_of_unicodeEscape {strict : Bool} {cs rest : List Char} {c : Option Char}
    (h : unicodeEscape strict cs = .ok (c, rest)) : rest.length ≤ cs.length := by
  unfold unicodeEscape at h
  split at h
  · simp at h
  · rename_i heq
    have hlen := length_of_hexFour heq
    split at h
    · split at h
      · simp at h
      · simp only [Except.ok.injEq, Prod.mk.injEq] at h
        exact h.2 ▸ hlen
    · split at h
      · split at h
        · rename_i hlow
          have := length_of_lowHalf hlow
          simp only [Except.ok.injEq, Prod.mk.injEq] at h
          rw [← h.2]
          omega
        · split at h
          · simp at h
          · simp only [Except.ok.injEq, Prod.mk.injEq] at h
            exact h.2 ▸ hlen
      · simp only [Except.ok.injEq, Prod.mk.injEq] at h
        exact h.2 ▸ hlen

theorem length_of_escaped {strict : Bool} {cs rest : List Char} {c : Option Char}
    (h : escaped strict cs = .ok (c, rest)) : rest.length ≤ cs.length := by
  unfold escaped at h
  split at h
  · simp at h
  · split at h
    · have := length_of_unicodeEscape h
      simp only [List.length_cons]
      omega
    · split at h
      · simp only [Except.ok.injEq, Prod.mk.injEq] at h
        simp [← h.2]
      · simp at h

def textBody (strict : Bool) (cs : List Char) : Except Fault (Option (List Char) × List Char) :=
  match cs with
  | [] => .error ⟨.endInString, 0, []⟩
  | c :: r =>
    if c = '"' then .ok (some [], r)
    else if c = '\\' then
      match _h : escaped strict r with
      | .error f => .error f
      | .ok (d, rest) => (textBody strict rest).map fun x => (prepend d x.1, x.2)
    else if c.toNat < 0x20 then .error ⟨.controlCharacter, 1, c :: r⟩
    else (textBody strict r).map fun x => (prepend (some c) x.1, x.2)
termination_by cs.length
decreasing_by
  · have := length_of_escaped _h
    simp only [List.length_cons]
    omega
  · simp
where
  prepend : Option Char → Option (List Char) → Option (List Char)
    | some c, some cs => some (c :: cs)
    | _, _ => none

end SchemaGraph.Json
