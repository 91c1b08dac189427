import SchemaGraph.Proofs.Sdl.Lexing

/-! Where a text between marks ends. A reader comes to the first mark without a backslash that
escapes it, so a text that is quoted ends with its own closing mark, whatever follows. Only after
the empty text does a further mark matter: three marks open a block. -/

namespace SchemaGraph.Sdl

/-- What stands before the first mark that is not escaped, and what follows that mark. There is
none if the line ends before it. -/
def upToMark (escaped : Bool) : List Char → Option (List Char × List Char)
  | [] => none
  | c :: cs =>
    if c = '"' ∧ escaped = false then some ([], cs)
    else if c = '\n' then none
    else (upToMark (c = '\\' && !escaped) cs).map fun b => (c :: b.1, b.2)

variable {cs raw xs rest : List Char}

theorem append_of_upToMark {escaped : Bool} (h : upToMark escaped cs = some (raw, rest)) :
    raw ++ '"' :: rest = cs := by
  induction cs generalizing escaped raw with
  | nil => cases h
  | cons c cs ih =>
    rw [upToMark] at h
    split at h
    · rename_i hmark
      cases h
      rw [hmark.1, List.nil_append]
    · split at h
      · cases h
      · obtain ⟨⟨raw', rest'⟩, hrest, heq⟩ := Option.map_eq_some_iff.1 h
        cases heq
        rw [List.cons_append, ih hrest]

def Plain (c : Char) : Prop := c ≠ '"' ∧ c ≠ '\n' ∧ c ≠ '\\'

instance (c : Char) : Decidable (Plain c) := inferInstanceAs (Decidable (_ ∧ _ ∧ _))

theorem upToMark_plain {c : Char} (hc : Plain c) (cs : List Char) :
    upToMark false (c :: cs) = (upToMark false cs).map fun b => (c :: b.1, b.2) := by
  simp [upToMark, hc.1, hc.2.1, hc.2.2]

theorem upToMark_escaped {c : Char} (hline : c ≠ '\n') (cs : List Char) :
    upToMark false ('\\' :: c :: cs) =
      (upToMark false cs).map fun b => ('\\' :: c :: b.1, b.2) := by
  cases h : upToMark false cs <;> simp [upToMark, hline, h]

theorem plain_of_hexDigit? {c : Char} (h : (hexDigit? c).isSome = true) : Plain c := by
  refine ⟨?_, ?_, ?_⟩ <;> rintro rfl <;> revert h <;> decide

theorem isSome_of_foldl_hexDigit? {n : Option Nat} (h : (cs.foldl (fun n d =>
    n.bind fun n => (hexDigit? d).map fun v => 16 * n + v) n).isSome = true) :
    n.isSome = true ∧ ∀ c ∈ cs, (hexDigit? c).isSome = true := by
  induction cs generalizing n with
  | nil => exact ⟨h, fun c hc => absurd hc List.not_mem_nil⟩
  | cons c cs ih =>
    obtain ⟨hnext, hcs⟩ := ih h
    rw [Option.isSome_bind, Option.any_eq_true] at hnext
    obtain ⟨v, rfl, hc⟩ := hnext
    exact ⟨rfl, List.forall_mem_cons.2 ⟨by simpa using hc, hcs⟩⟩

theorem plain_of_hexNumber? (h : (hexNumber? cs).isSome = true) : ∀ c ∈ cs, Plain c := by
  have hdigits : ∀ ds, (hexNumber?.digits ds).isSome = true → ∀ c ∈ ds, Plain c := by
    intro ds hds
    unfold hexNumber?.digits at hds
    split at hds
    · cases hds
    · exact fun c hc => plain_of_hexDigit? ((isSome_of_foldl_hexDigit? hds).2 c hc)
  unfold hexNumber? at h
  split at h
  · exact List.forall_mem_cons.2 ⟨by decide, hdigits _ h⟩
  · exact hdigits _ h

theorem ne_newline_of_plainEscape? {c : Char} (h : (plainEscape? c).isSome = true) :
    c ≠ '\n' := by
  rintro rfl
  revert h
  decide

theorem upToMark_of_textBody (h : textBody cs = some (xs, rest)) :
    ∃ raw, upToMark false cs = some (raw, rest) := by
  fun_induction textBody cs generalizing xs rest with
  | case1 | case3 | case5 | case7 | case9 => cases h
  | case2 r =>
    cases h
    exact ⟨[], rfl⟩
  | case4 a b c d r x ys rest' hbody hx ih =>
    cases h
    obtain ⟨n, hn, -⟩ := Option.bind_eq_some_iff.1 hx
    have hplain := plain_of_hexNumber? (Option.isSome_of_eq_some hn)
    simp only [List.forall_mem_cons] at hplain
    obtain ⟨ha, hb, hc, hd, -⟩ := hplain
    obtain ⟨raw, hraw⟩ := ih hbody
    rw [upToMark_escaped (by decide), upToMark_plain ha, upToMark_plain hb, upToMark_plain hc,
      upToMark_plain hd, hraw]
    exact ⟨_, rfl⟩
  | case6 c r _ x ys rest' hbody hx ih =>
    cases h
    obtain ⟨raw, hraw⟩ := ih hbody
    rw [upToMark_escaped (ne_newline_of_plainEscape? (Option.isSome_of_eq_some hx)), hraw]
    exact ⟨_, rfl⟩
  | case8 c r hmark hline _ hback ys rest' hbody ih =>
    cases h
    -- A backslash with a character after it is a case above, and without one nothing is read.
    have hc : c ≠ '\\' := by
      rintro rfl
      cases r with
      | nil => cases hbody
      | cons d r => exact hback d r rfl rfl
    obtain ⟨raw, hraw⟩ := ih hbody
    rw [upToMark_plain ⟨hmark, hline, hc⟩, hraw]
    exact ⟨_, rfl⟩

theorem upToMark_escape (cs rest : List Char) :
    upToMark false (Text.escape cs ++ '"' :: rest) = some (Text.escape cs, rest) := by
  obtain ⟨raw, hraw⟩ := upToMark_of_textBody (textBody_escape cs rest)
  have happend := append_of_upToMark hraw
  rw [hraw, List.append_cancel_right happend]

/-! The first lexeme of a text that begins with a literal -/

theorem lexemes_cons {c : Char} (hsep : isSeparator c = false) (hcomment : c ≠ '#')
    (cs : List Char) : lexemes (c :: cs) =
      (⟨[], c :: cs.take (token c cs).2, (token c cs).1⟩ ::
        (lexemes (cs.drop (token c cs).2)).1, (lexemes (cs.drop (token c cs).2)).2) := by
  have hgap : gap false (c :: cs) = ([], c :: cs) := by
    simp [gap, hsep, hcomment]
  rw [lexemes]
  split
  · simp_all
  · rename_i hcons
    rw [hgap] at hcons
    cases hcons
    rfl

structure ReadBefore (s : String) (rest : List Char) : Prop where
  lexemes : lexemes ((Text.quote s).toList ++ rest) =
    (⟨[], (Text.quote s).toList, .text s⟩ :: (lexemes rest).1, (lexemes rest).2)
  closed : ∃ inside, (Text.quote s).toList = '"' :: (inside ++ ['"']) ∧
    upToMark false (inside ++ '"' :: rest) = some (inside, rest)

theorem lexemes_quote_append (s : String) {rest : List Char}
    (hrest : s = "" → rest.head? ≠ some '"') :
    lexemes ((Text.quote s).toList ++ rest) =
      (⟨[], (Text.quote s).toList, .text s⟩ :: (lexemes rest).1, (lexemes rest).2) := by
  have hlength : (Text.escape s.toList ++ ['"']).length = (Text.escape s.toList).length + 1 := by
    simp
  have hsplit : Text.escape s.toList ++ '"' :: rest =
      (Text.escape s.toList ++ ['"']) ++ rest := by
    simp
  rw [Text.toList_quote, List.cons_append, ← hsplit, lexemes_cons rfl (by decide),
    token_quote s hrest, hsplit, List.take_left' hlength, List.drop_left' hlength]

theorem token_marks (body : List Char) :
    token '"' ('"' :: '"' :: body) =
      match blockBody false body with
      | some (cs, rest) => (.text (String.ofList (blockText cs)), body.length + 2 - rest.length)
      | none => (.bad, body.length + 2) := by
  unfold token
  rw [if_neg (by decide), if_neg (by decide), if_neg (by decide)]
  rfl

/-- Three marks open a block, so the first two of them are no literal. -/
theorem two_le_token_marks (body : List Char) : 2 ≤ (token '"' ('"' :: '"' :: body)).2 := by
  rw [token_marks]
  cases hbody : blockBody false body with
  | none => exact Nat.le_add_left 2 body.length
  | some b =>
    have hlength := length_of_blockBody hbody
    dsimp only
    omega

/-- A literal is read as it was written unless it is empty and one more mark follows it. -/
theorem readBefore_iff (s : String) (rest : List Char) :
    ReadBefore s rest ↔ (s = "" → rest.head? ≠ some '"') := by
  constructor
  · rintro ⟨hlexemes, -⟩ rfl hmark
    obtain ⟨body, rfl⟩ := List.head?_eq_some_iff.1 hmark
    -- The lexeme at three marks takes the third one too, so it is longer than the literal.
    have hempty : (Text.quote "").toList = ['"', '"'] := rfl
    rw [hempty, List.cons_append, List.singleton_append, lexemes_cons rfl (by decide)] at hlexemes
    have hchars := congrArg Lexeme.chars (List.cons.inj (Prod.mk.inj hlexemes).1).1
    have hlength := congrArg List.length hchars
    have htwo := two_le_token_marks body
    simp only [List.length_cons, List.length_take, List.length_nil] at hlength
    omega
  · intro hrest
    exact ⟨lexemes_quote_append s hrest, Text.escape s.toList, Text.toList_quote s,
      upToMark_escape s.toList rest⟩

/-- An escape at the end of a text does not reach its closing mark. -/
example : tokens (Text.quote "a \\\"\\" ++ "\\\"").toList = [.text "a \\\"\\", .bad] := by
  decide +kernel

end SchemaGraph.Sdl
