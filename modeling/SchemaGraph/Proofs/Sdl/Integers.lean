import SchemaGraph.Proofs.Sdl.Lexing

/-! Integers in decimal, which are read back as the integers they stand for. -/

namespace SchemaGraph.Sdl

theorem head?_toDigits_eq_zero_iff (n : Nat) :
    (Nat.toDigits 10 n).head? = some '0' ↔ n = 0 := by
  induction n using Nat.strongRecOn with
  | ind n ih =>
    by_cases h : n < 10
    · rw [Nat.toDigits_of_lt_base h]
      simp [Nat.digitChar_eq_zero]
    · -- The leading digit is that of the number without its last digit.
      obtain ⟨c, cs, hcons⟩ : ∃ c cs, Nat.toDigits 10 (n / 10) = c :: cs :=
        List.exists_cons_of_ne_nil Nat.toDigits_ne_nil
      have hdiv := ih (n / 10) (by omega)
      rw [Nat.toDigits_of_base_le (by decide) (by omega), hcons, List.cons_append,
        List.head?_cons]
      rw [hcons, List.head?_cons] at hdiv
      rw [hdiv]
      omega

theorem isUnsigned_of_ne_zero {c : Char} {cs : List Char} (hzero : c ≠ '0')
    (h : ∀ d ∈ c :: cs, d.isDigit = true) : isWhole.isUnsigned (c :: cs) = true := by
  rw [isWhole.isUnsigned.eq_3 c cs fun hc _ => hzero hc]
  simp_all [isDigits]

theorem toDigits_spec (n : Nat) :
    isWhole.isUnsigned (Nat.toDigits 10 n) = true ∧ natOf (Nat.toDigits 10 n) = n ∧
      ∀ c ∈ Nat.toDigits 10 n, c.isDigit = true := by
  have hdigits : ∀ c ∈ Nat.toDigits 10 n, c.isDigit = true := fun c hc =>
    Nat.isDigit_of_mem_toDigits (by decide) (by decide) hc
  refine ⟨?_, Nat.ofDigitChars_ten_toDigits, hdigits⟩
  by_cases hn : n = 0
  · rw [hn]
    rfl
  · have hhead := mt (head?_toDigits_eq_zero_iff n).1 hn
    obtain ⟨c, cs, hcons⟩ : ∃ c cs, Nat.toDigits 10 n = c :: cs :=
      List.exists_cons_of_ne_nil Nat.toDigits_ne_nil
    rw [hcons] at hhead hdigits ⊢
    exact isUnsigned_of_ne_zero (by simpa using hhead) hdigits

theorem unsigned_of_isDigit {cs : List Char} (h : ∀ c ∈ cs, c.isDigit = true) :
    isWhole cs = isWhole.isUnsigned cs ∧ intOf cs = natOf cs := by
  have hsign : ∀ c ∈ cs, c ≠ '-' ∧ c ≠ '+' := by
    intro c hc
    constructor
    all_goals
      rintro rfl
      exact absurd (h _ hc) (by decide)
  constructor
  · unfold isWhole
    split
    · exact absurd rfl (hsign _ List.mem_cons_self).1
    · rfl
  · unfold intOf
    split
    · exact absurd rfl (hsign _ List.mem_cons_self).1
    · exact absurd rfl (hsign _ List.mem_cons_self).2
    · rfl

theorem repr_spec (n : Int) :
    isWhole n.repr.toList = true ∧ intOf n.repr.toList = n ∧
      ∀ c ∈ n.repr.toList, isNumberStart c = true := by
  rcases n with m | m
  · obtain ⟨hunsigned, hnat, hdigits⟩ := toDigits_spec m
    obtain ⟨hwhole, hint⟩ := unsigned_of_isDigit hdigits
    rw [show (Int.ofNat m).repr = m.repr from rfl, Nat.toList_repr]
    exact ⟨hwhole.trans hunsigned, by rw [hint, hnat]; rfl, fun c hc => by
      simp [isNumberStart, hdigits c hc]⟩
  · obtain ⟨hunsigned, hnat, hdigits⟩ := toDigits_spec (m + 1)
    rw [show (Int.negSucc m).repr = "-" ++ (m + 1).repr from rfl, String.toList_append,
      Nat.toList_repr]
    refine ⟨hunsigned, ?_, ?_⟩
    · show -(natOf (Nat.toDigits 10 (m + 1)) : Int) = Int.negSucc m
      rw [hnat]
      rfl
    · intro c hc
      rcases List.mem_cons.1 hc with rfl | hc
      · rfl
      · simp [isNumberStart, hdigits c hc]

theorem isNameStart_of_isNumberStart {c : Char} (h : isNumberStart c = true) :
    isNameStart c = false := by
  simp only [isNumberStart, Char.isDigit, Bool.or_eq_true, Bool.and_eq_true,
    decide_eq_true_eq] at h
  rcases h with rfl | ⟨hlow, hhigh⟩
  · rfl
  · simp only [isNameStart, isLetter, Char.le_def, Bool.or_eq_false_iff, Bool.and_eq_false_iff,
      decide_eq_false_iff_not, UInt32.le_iff_toNat_le] at *
    refine ⟨?_, .inl ?_, .inl ?_⟩
    · rintro rfl
      exact absurd hhigh (by decide)
    all_goals
      simp at *
      omega

theorem not_mem_stops_of_isNumberStart {c : Char} (h : isNumberStart c = true) :
    c ∉ stops ∧ c ≠ '.' ∧ isExponentMark c = false := by
  have hall : (['.', 'e', 'E'] ++ stops).all (fun c => !isNumberStart c) = true := by decide
  have hc : c ∉ ['.', 'e', 'E'] ++ stops := by
    intro hc
    have hstop := List.all_eq_true.1 hall c hc
    rw [h] at hstop
    cases hstop
  simp only [List.mem_append, List.mem_cons, List.not_mem_nil, not_or] at hc
  simp [isExponentMark, hc]

theorem numberToken_repr (n : Int) :
    numberToken n.repr.toList = if fitsInt64 n then .int n else .bad := by
  obtain ⟨hwhole, hint, hchars⟩ := repr_spec n
  have hpoint : n.repr.toList.any (fun c => c = '.' || isExponentMark c) = false := by
    rw [List.any_eq_false]
    intro c hc
    simp [not_mem_stops_of_isNumberStart (hchars c hc)]
  unfold numberToken
  rw [if_neg (by rw [hpoint]; decide), hint]
  simp only [hwhole, true_and]

theorem endsNumber_of_isNumberStart {c : Char} (h : isNumberStart c = true) :
    endsNumber c = false :=
  Bool.eq_false_iff.2 fun hend =>
    (not_mem_stops_of_isNumberStart h).1 (mem_stops_of_endsNumber hend)

theorem token_number {c : Char} {cs rest : List Char} (hc : isNumberStart c = true)
    (hcs : ∀ d ∈ cs, endsNumber d = false) (hrest : Delimited rest) :
    token c (cs ++ rest) = (numberToken (c :: cs), cs.length) := by
  have hstop := not_mem_stops.1 (not_mem_stops_of_isNumberStart hc).1
  have htake : (cs ++ rest).takeWhile (fun d => !endsNumber d) = cs :=
    takeWhile_append_of_delimited (fun d hd => by rw [hcs d hd]; rfl)
      (fun d hd => by rw [hd]; rfl) hrest
  unfold token
  rw [if_neg (by simp [hstop]), if_neg (by simp [isNameStart_of_isNumberStart hc]), if_pos hc,
    htake]

theorem lexes_number {c : Char} {cs : List Char} (hc : isNumberStart c = true)
    (hcs : ∀ d ∈ cs, endsNumber d = false) : Lexes (c :: cs) [numberToken (c :: cs)] := by
  intro rest hrest
  have hstop := not_mem_stops.1 (not_mem_stops_of_isNumberStart hc).1
  rw [List.cons_append, tokens_cons hstop.1 hstop.2.1, token_number hc hcs hrest]
  simp

theorem lexes_repr (n : Int) :
    Lexes n.repr.toList [if fitsInt64 n then .int n else .bad] := by
  obtain ⟨hwhole, -, hchars⟩ := repr_spec n
  have htoken := numberToken_repr n
  rcases hcons : n.repr.toList with _ | ⟨c, cs⟩
  · rw [hcons] at hwhole
    cases hwhole
  · rw [hcons] at hchars htoken
    rw [← htoken]
    exact lexes_number (hchars c List.mem_cons_self) fun d hd =>
      endsNumber_of_isNumberStart (hchars d (List.mem_cons_of_mem _ hd))

theorem lexes_int {n : Int} (h : fitsInt64 n = true) : Lexes n.repr.toList [.int n] := by
  have hlexes := lexes_repr n
  rwa [h] at hlexes

end SchemaGraph.Sdl
