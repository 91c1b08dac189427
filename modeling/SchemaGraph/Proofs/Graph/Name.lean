import SchemaGraph.Graph.Name

/-! Which names edits accept, without reference to the functions that check them. -/

namespace SchemaGraph

def ValidName (s : String) : Prop :=
  ∃ first more, s.toList = first :: more ∧
    (first.isAlpha = true ∨ first = '_' ∧ more.head? ≠ some '_') ∧
      ∀ c ∈ more, c.isAlphanum = true ∨ c = '_'

theorem isLetter_eq_isAlpha (c : Char) : Sdl.isLetter c = c.isAlpha := by
  have halpha : c.isAlpha = (decide ('A'.val ≤ c.val ∧ c.val ≤ 'Z'.val) ||
      ('a'.val ≤ c.val && c.val ≤ 'z'.val)) := rfl
  rw [halpha, Sdl.isLetter, Bool.or_comm, Bool.decide_and]
  rfl

theorem isNameChar_iff (c : Char) :
    Sdl.isNameChar c = true ↔ c.isAlphanum = true ∨ c = '_' := by
  simp only [Sdl.isNameChar, Sdl.isNameStart, isLetter_eq_isAlpha, Char.isAlphanum,
    Bool.or_eq_true, decide_eq_true_eq]
  grind

theorem isPrefixOf_underscores_iff (c : Char) (cs : List Char) :
    ['_', '_'].isPrefixOf (c :: cs) = true ↔ c = '_' ∧ cs.head? = some '_' := by
  cases cs with
  | nil => simp [List.isPrefixOf]
  | cons d ds => simp [List.isPrefixOf, @eq_comm _ '_']

theorem isValidName_iff (s : String) : isValidName s = true ↔ ValidName s := by
  unfold isValidName ValidName
  generalize s.toList = cs
  match cs with
  | [] => simp [Sdl.isName]
  | c :: cs =>
    have hfirst : (c.isAlpha = true ∨ c = '_') ∧ ¬(c = '_' ∧ cs.head? = some '_') ↔
        c.isAlpha = true ∨ c = '_' ∧ cs.head? ≠ some '_' := by
      have hunderscore : c = '_' → c.isAlpha = false := by
        rintro rfl
        rfl
      grind
    rw [Bool.and_eq_true, Bool.not_eq_true', ← Bool.not_eq_true, isPrefixOf_underscores_iff]
    simp only [Sdl.isName, Sdl.isNameStart, isLetter_eq_isAlpha, Bool.and_eq_true,
      Bool.or_eq_true, decide_eq_true_eq, List.all_eq_true, isNameChar_iff, List.cons.injEq]
    constructor
    · rintro ⟨⟨hstart, hmore⟩, htwice⟩
      exact ⟨c, cs, ⟨rfl, rfl⟩, hfirst.1 ⟨hstart.symm, htwice⟩, hmore⟩
    · rintro ⟨_, _, ⟨rfl, rfl⟩, hstart, hmore⟩
      exact ⟨⟨(hfirst.2 hstart).1.symm, hmore⟩, (hfirst.2 hstart).2⟩

theorem isReservedName_eq_false_iff (name : String) :
    isReservedName name = false ↔
      (∀ b ∈ Builtin.all, b.name ≠ name) ∧ name ∉ Builtin.resourceReferences := by
  simp only [isReservedName, Builtin.isFieldType, Builtin.isScalar, Builtin.isResourceReference,
    Builtin.find?, Bool.or_eq_false_iff, Option.isSome_eq_false_iff, Option.isNone_iff_eq_none,
    List.find?_eq_none, decide_eq_true_eq, List.contains_eq_mem, decide_eq_false_iff_not]
  constructor
  · rintro ⟨hall, -, hres⟩
    exact ⟨hall, hres⟩
  · rintro ⟨hall, hres⟩
    refine ⟨hall, ?_, hres⟩
    have hnone : Builtin.all.find? (fun b => decide (b.name = name)) = none := by
      simpa only [List.find?_eq_none, decide_eq_true_eq] using hall
    rw [hnone]
    rfl

end SchemaGraph
