import SchemaGraph.Sdl.Token

/-! Readers of tokens. A reader looks at one token at a time, never goes back, and on failure
gives the tokens that are left, the first of which is the one that does not fit. -/

namespace SchemaGraph.Sdl

abbrev Reader (α : Type) := StateT (List Token) (Except (List Token)) α

namespace Reader

variable {α : Type}

def stop : Reader α := fun ts => .error ts

def next : Reader (Option Token) := fun ts => .ok (ts.head?, ts)

def rest : Reader (List Token) := fun ts => .ok (ts, ts)

def exactly (t : Token) : Reader Unit
  | u :: ts => if u = t then .ok ((), ts) else .error (u :: ts)
  | [] => .error []

def punct (c : Char) : Reader Unit := exactly (.punct c)

def word (s : String) : Reader Unit := exactly (.name s)

def name : Reader String
  | .name s :: ts => .ok (s, ts)
  | ts => .error ts

def startsWithName : Option Token → Bool
  | some (.name _) => true
  | _ => false

def startsDescribed : Option Token → Bool
  | some (.name _) => true
  | some (.text _) => true
  | _ => false

def atPunct (c : Char) (t : Option Token) : Bool := t = some (.punct c)

def atWord (s : String) (t : Option Token) : Bool := t = some (.name s)

def maybe (starts : Option Token → Bool) (p : Reader α) : Reader (Option α) := do
  if starts (← next) then some <$> p else pure none

/-- Repeats `p` as long as the next token may start it. A `p` that takes nothing would go on
for ever and is not repeated. -/
def many (starts : Option Token → Bool) (p : Reader α) (ts : List Token) :
    Except (List Token) (List α × List Token) :=
  if starts ts.head? then
    match p ts with
    | .error e => .error e
    | .ok (a, rest) =>
      if _h : rest.length < ts.length then
        match many starts p rest with
        | .error e => .error e
        | .ok (as, rest) => .ok (a :: as, rest)
      else .error rest
  else .ok ([], ts)
termination_by ts.length

def many1 (starts : Option Token → Bool) (p : Reader α) : Reader (List α) := do
  let a ← p
  let as ← many starts p
  pure (a :: as)

def separated (mark : Char) (p : Reader α) : Reader (List α) := do
  let a ← p
  let as ← many (atPunct mark) (do punct mark; p)
  pure (a :: as)

/-- Something in brackets, inside which one bracket less may be opened. -/
def enclosed (left right : Char) (p : Nat → Reader α) : Nat → Reader α
  | 0 => stop
  | room + 1 => do
    punct left
    let a ← p room
    punct right
    pure a

theorem many_of_not_starts (starts : Option Token → Bool) (p : Reader α) (ts : List Token)
    (h : starts ts.head? = false) : many starts p ts = .ok ([], ts) := by
  rw [many]
  simp [h]

theorem many_cons (starts : Option Token → Bool) (p : Reader α) {ts rest rest' : List Token}
    {a : α} {as : List α} (h : starts ts.head? = true) (hp : p ts = .ok (a, rest))
    (hlt : rest.length < ts.length) (hr : many starts p rest = .ok (as, rest')) :
    many starts p ts = .ok (a :: as, rest') := by
  rw [many]
  simp [h, hp, hlt, hr]

end Reader

end SchemaGraph.Sdl
