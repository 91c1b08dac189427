/-! Cutting texts at a character. -/

namespace SchemaGraph.Text

/-- The pieces between the separators; there is always one more piece than separators. -/
def pieces (separator : Char) : List Char → List (List Char)
  | [] => [[]]
  | c :: cs =>
    if c = separator then [] :: pieces separator cs
    else
      match pieces separator cs with
      | [] => [[c]]
      | p :: ps => (c :: p) :: ps

def split (separator : Char) (s : String) : List String :=
  (pieces separator s.toList).map String.ofList

def splitOnce (separator : Char) (s : String) : Option (String × String) :=
  match s.toList.dropWhile (· ≠ separator) with
  | [] => none
  | _ :: after => some (String.ofList (s.toList.takeWhile (· ≠ separator)), String.ofList after)

theorem pieces_append {separator : Char} {piece : List Char} (h : separator ∉ piece)
    (cs : List Char) :
    pieces separator (piece ++ separator :: cs) = piece :: pieces separator cs := by
  induction piece with
  | nil => simp [pieces]
  | cons c piece ih =>
    rw [List.mem_cons, not_or] at h
    rw [List.cons_append, pieces, if_neg fun heq => h.1 heq.symm, ih h.2]

theorem pieces_of_not_mem {separator : Char} {piece : List Char} (h : separator ∉ piece) :
    pieces separator piece = [piece] := by
  induction piece with
  | nil => rfl
  | cons c piece ih =>
    rw [List.mem_cons, not_or] at h
    rw [pieces, if_neg fun heq => h.1 heq.symm, ih h.2]

theorem pieces_intercalate {separator : Char} {ps : List (List Char)} (hne : ps ≠ [])
    (h : ∀ p ∈ ps, separator ∉ p) : pieces separator ([separator].intercalate ps) = ps := by
  induction ps with
  | nil => exact absurd rfl hne
  | cons p ps ih =>
    obtain ⟨hp, hps⟩ := List.forall_mem_cons.1 h
    cases ps with
    | nil => simpa using pieces_of_not_mem hp
    | cons q qs =>
      rw [List.intercalate_cons_cons, List.append_assoc, List.singleton_append,
        pieces_append hp, ih (List.cons_ne_nil q qs) hps]

end SchemaGraph.Text
