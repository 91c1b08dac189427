import SchemaGraph.Sdl.Number
import SchemaGraph.Sdl.Text

/-! A text cut into lexemes: the characters skipped before a token, the characters of the token,
and the token. Nothing is lost, so the place of a token follows from what comes before it. -/

namespace SchemaGraph.Sdl

structure Lexeme where
  gap : List Char
  chars : List Char
  token : Token

def gap (inComment : Bool) : List Char → List Char × List Char
  | [] => ([], [])
  | c :: r =>
    if inComment then
      let (g, rest) := gap (!isNewline c) r
      (c :: g, rest)
    else if isSeparator c ∨ c = '#' then
      let (g, rest) := gap (c = '#') r
      (c :: g, rest)
    else ([], c :: r)

theorem gap_append (inComment : Bool) (cs : List Char) :
    (gap inComment cs).1 ++ (gap inComment cs).2 = cs := by
  induction cs generalizing inComment with
  | nil => rfl
  | cons c cs ih =>
    rw [gap]
    split
    · simp [ih]
    · split
      · simp [ih]
      · rfl

theorem length_gap_le (inComment : Bool) (cs : List Char) :
    (gap inComment cs).2.length ≤ cs.length := by
  have h := congrArg List.length (gap_append inComment cs)
  rw [List.length_append] at h
  omega

/-- The token that starts with `c`, and how many characters of `r` belong to it. -/
def token (c : Char) (r : List Char) : Token × Nat :=
  if isPunct c then (.punct c, 0)
  else if isNameStart c then
    let more := r.takeWhile isNameChar
    (.name (String.ofList (c :: more)), more.length)
  else if isNumberStart c then
    let more := r.takeWhile (!endsNumber ·)
    (numberToken (c :: more), more.length)
  else
    match c, r with
    | '.', '.' :: '.' :: _ => (.spread, 2)
    | '"', '"' :: '"' :: body =>
      match blockBody false body with
      | some (cs, rest) => (.text (String.ofList (blockText cs)), r.length - rest.length)
      | none => (.bad, r.length)
    | '"', r =>
      match textBody r with
      | some (cs, rest) => (.text (String.ofList cs), r.length - rest.length)
      | none => (.bad, r.length)
    | _, _ => (.bad, r.length)

def lexemes (cs : List Char) : List Lexeme × List Char :=
  match _h : gap false cs with
  | (g, []) => ([], g)
  | (g, c :: r) =>
    let (t, n) := token c r
    let after := lexemes (r.drop n)
    (⟨g, c :: r.take n, t⟩ :: after.1, after.2)
termination_by cs.length
decreasing_by
  have h := length_gap_le false cs
  rw [_h] at h
  simp only [List.length_cons] at h
  rw [List.length_drop]
  omega

def Lexeme.all : List Lexeme → List Char
  | [] => []
  | l :: ls => l.gap ++ l.chars ++ all ls

theorem all_lexemes (cs : List Char) :
    Lexeme.all (lexemes cs).1 ++ (lexemes cs).2 = cs := by
  fun_induction lexemes cs with
  | case1 cs g h =>
    have happ := gap_append false cs
    rw [h] at happ
    simpa [Lexeme.all] using happ
  | case2 cs g c r h t n _ after ih =>
    have happ := gap_append false cs
    rw [h] at happ
    rw [← happ]
    simp only [Lexeme.all, List.append_assoc]
    rw [ih]
    simp

def tokens (cs : List Char) : List Token := (lexemes cs).1.map Lexeme.token

structure Position where
  line : Nat
  column : Nat
  deriving DecidableEq

namespace Position

def nextLine (p : Position) : Position := ⟨p.line + 1, 1⟩

/-- A tab is eight columns wide; carriage returns and byte order marks take no room. A comment
takes none either, but the character that ends it starts a line. -/
def skip (inComment : Bool) (p : Position) : List Char → Position
  | [] => p
  | c :: r =>
    if inComment then
      if isNewline c then skip false p.nextLine r else skip true p r
    else if c = '#' then skip true p r
    else if c = '\n' then skip false p.nextLine r
    else if c = '\t' then skip false ⟨p.line, p.column + 8⟩ r
    else if c = '\r' ∨ c = '\ufeff' then skip false p r
    else skip false ⟨p.line, p.column + 1⟩ r

def pass (p : Position) (cs : List Char) : Position :=
  cs.foldl (fun p c => if c = '\n' then p.nextLine else ⟨p.line, p.column + 1⟩) p

end Position

def position (n : Nat) (ls : List Lexeme × List Char) : Position :=
  go n ⟨1, 1⟩ ls.1
where
  go : Nat → Position → List Lexeme → Position
    | _, p, [] => p.skip false ls.2
    | 0, p, l :: _ => p.skip false l.gap
    | n + 1, p, l :: more => go n ((p.skip false l.gap).pass l.chars) more

end SchemaGraph.Sdl
