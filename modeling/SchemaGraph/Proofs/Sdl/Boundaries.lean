import SchemaGraph.Proofs.Sdl.Literals
import SchemaGraph.Proofs.Sdl.Quoted

/-! Where a text ends. The tokens of a text do not tell how far it goes, its lexemes do: a text is
whole if what comes after it, as long as it does not run into it, begins a lexeme of its own. The
literals of values are whole. -/

namespace SchemaGraph.Sdl

/-- The text has the same lexemes wherever it stands, and nothing is skipped after the last. -/
def Whole (cs : List Char) : Prop :=
  ∀ rest, Delimited rest →
    lexemes (cs ++ rest) = ((lexemes cs).1 ++ (lexemes rest).1, (lexemes rest).2)

theorem lexemes_nil : lexemes [] = ([], []) := by
  rw [lexemes]
  rfl

variable {cs as bs : List Char}

theorem whole_of (ls : List Lexeme) (h : ∀ rest, Delimited rest →
    lexemes (cs ++ rest) = (ls ++ (lexemes rest).1, (lexemes rest).2)) : Whole cs := by
  have halone := h [] delimited_nil
  rw [List.append_nil, lexemes_nil, List.append_nil] at halone
  intro rest hrest
  rw [h rest hrest, halone]

theorem Whole.lexemes_eq (h : Whole cs) : lexemes cs = ((lexemes cs).1, []) := by
  have halone := h [] delimited_nil
  rwa [List.append_nil, lexemes_nil, List.append_nil] at halone

theorem Whole.all_eq (h : Whole cs) : Lexeme.all (lexemes cs).1 = cs := by
  have hall := all_lexemes cs
  rwa [h.lexemes_eq, List.append_nil] at hall

theorem Whole.tokens_append (h : Whole cs) {rest : List Char} (hrest : Delimited rest) :
    tokens (cs ++ rest) = tokens cs ++ tokens rest := by
  unfold tokens
  rw [h rest hrest, List.map_append]

theorem whole_nil : Whole [] := whole_of [] fun _ _ => rfl

theorem Whole.append (ha : Whole as) (hb : Whole bs) (hd : Delimited bs) : Whole (as ++ bs) := by
  refine whole_of ((lexemes as).1 ++ (lexemes bs).1) fun rest hrest => ?_
  rw [List.append_assoc, ha _ (hd.append hrest), hb rest hrest, List.append_assoc]

theorem lexemes_punct {c : Char} (hc : c ∈ puncts) (cs : List Char) :
    lexemes (c :: cs) = (⟨[], [c], .punct c⟩ :: (lexemes cs).1, (lexemes cs).2) := by
  obtain ⟨hsep, hcomment⟩ := not_skipped_of_mem_puncts hc
  rw [lexemes_cons hsep hcomment, token_punct ((mem_puncts c).1 hc)]
  rfl

theorem Whole.punct (h : Whole cs) {c : Char} (hc : c ∈ puncts) : Whole (c :: cs) := by
  refine whole_of (⟨[], [c], .punct c⟩ :: (lexemes cs).1) fun rest hrest => ?_
  rw [List.cons_append, lexemes_punct hc, h rest hrest, List.cons_append]

theorem Whole.enclosed (h : Whole cs) (left right : Char) (hleft : left ∈ puncts)
    (hright : right ∈ puncts) : Whole (left :: (cs ++ [right])) :=
  (h.append (whole_nil.punct hright) (delimited_punct hright [])).punct hleft

theorem whole_token {c : Char} (t : Token) (hc : c ∉ stops)
    (h : ∀ rest, Delimited rest → token c (cs ++ rest) = (t, cs.length)) : Whole (c :: cs) := by
  have hstop := not_mem_stops.1 hc
  refine whole_of [⟨[], c :: cs, t⟩] fun rest hrest => ?_
  rw [List.cons_append, lexemes_cons hstop.1 hstop.2.1, h rest hrest, List.take_left' rfl,
    List.drop_left' rfl]
  rfl

theorem whole_name {s : String} (h : isName s.toList = true) : Whole s.toList := by
  rcases hs : s.toList with _ | ⟨c, cs⟩
  · exact whole_nil
  · rw [hs] at h
    exact whole_token _ (not_mem_stops_of_isName h) fun _ hrest => token_name h hrest

theorem whole_repr (n : Int) : Whole n.repr.toList := by
  obtain ⟨-, -, hchars⟩ := repr_spec n
  rcases hs : n.repr.toList with _ | ⟨c, cs⟩
  · exact whole_nil
  · rw [hs] at hchars
    have hc := hchars c List.mem_cons_self
    refine whole_token (numberToken (c :: cs)) (not_mem_stops_of_isNumberStart hc).1
      fun _ hrest => ?_
    exact token_number hc (fun d hd =>
      endsNumber_of_isNumberStart (hchars d (List.mem_cons_of_mem _ hd))) hrest

theorem whole_quote (s : String) : Whole (Text.quote s).toList := by
  refine whole_of [⟨[], (Text.quote s).toList, .text s⟩] fun rest hrest => ?_
  refine lexemes_quote_append s fun _ hmark => ?_
  exact absurd (hrest '"' hmark) (by decide)

theorem lexemes_separator {c : Char} (hc : isSeparator c = true) {l : Lexeme} {ls : List Lexeme}
    {skipped : List Char} (h : lexemes cs = (l :: ls, skipped)) :
    lexemes (c :: cs) = (⟨c :: l.gap, l.chars, l.token⟩ :: ls, skipped) := by
  have hcomment : c ≠ '#' := by
    rintro rfl
    revert hc
    decide
  have hgap : gap false (c :: cs) = (c :: (gap false cs).1, (gap false cs).2) := by
    simp [gap, hc, hcomment]
  rw [lexemes] at h ⊢
  split at h
  · cases h
  · rename_i g d r hcs
    rw [hcs] at hgap
    split
    · simp_all
    · rename_i hcons
      rw [hgap] at hcons
      cases hcons
      cases h
      rfl

theorem Whole.separator (h : Whole cs) (hne : tokens cs ≠ []) {c : Char}
    (hc : isSeparator c = true) : Whole (c :: cs) := by
  obtain ⟨l, ls, hls⟩ : ∃ l ls, (lexemes cs).1 = l :: ls :=
    List.exists_cons_of_ne_nil fun hnil => hne (by rw [tokens, hnil, List.map_nil])
  refine whole_of (⟨c :: l.gap, l.chars, l.token⟩ :: ls) fun rest hrest => ?_
  have hcs := h rest hrest
  rw [hls, List.cons_append] at hcs
  rw [List.cons_append, lexemes_separator hc hcs, List.cons_append]

theorem Whole.separators (h : Whole cs) (hne : tokens cs ≠ []) {sep : List Char}
    (hsep : sep.all isSeparator = true) : Whole (sep ++ cs) ∧ tokens (sep ++ cs) ≠ [] := by
  induction sep with
  | nil => exact ⟨h, hne⟩
  | cons c sep ih =>
    rw [List.all_cons, Bool.and_eq_true] at hsep
    obtain ⟨hwhole, hsome⟩ := ih hsep.2
    rw [List.cons_append, tokens_separator hsep.1]
    exact ⟨hwhole.separator hsome hsep.1, hsome⟩

variable {α : Type} {text : α → List Char} {xs : List α}

/-- A separator belongs to the lexeme after it, so there has to be one after each. -/
theorem whole_intercalate {sep : List Char} (hsep : sep.all isSeparator = true)
    (hd : Delimited sep) (hne : sep ≠ []) (h : ∀ x ∈ xs, Whole (text x))
    (hsome : ∀ x ∈ xs, tokens (text x) ≠ []) :
    Whole (sep.intercalate (xs.map text)) ∧
      (xs ≠ [] → tokens (sep.intercalate (xs.map text)) ≠ []) := by
  induction xs with
  | nil => exact ⟨whole_nil, fun hnil => absurd rfl hnil⟩
  | cons x xs ih =>
    have hx := h x List.mem_cons_self
    have hx' := hsome x List.mem_cons_self
    obtain ⟨hxs, hxs'⟩ := ih (fun y hy => h y (List.mem_cons_of_mem _ hy)) fun y hy =>
      hsome y (List.mem_cons_of_mem _ hy)
    rcases xs with _ | ⟨y, ys⟩
    · rw [List.map_singleton, List.intercalate_singleton]
      exact ⟨hx, fun _ => hx'⟩
    have hrest : Delimited (sep ++ sep.intercalate ((y :: ys).map text)) := by
      obtain ⟨c, cs, rfl⟩ := List.exists_cons_of_ne_nil hne
      simpa using hd
    rw [List.map_cons, List.map_cons, List.intercalate_cons_cons, ← List.map_cons,
      List.append_assoc, hx.tokens_append hrest]
    obtain ⟨hmore, -⟩ := hxs.separators (hxs' (List.cons_ne_nil y ys)) hsep
    exact ⟨hx.append hmore hrest, fun _ => List.append_ne_nil_of_left_ne_nil hx' _⟩

theorem whole_commas (render : α → String) (h : ∀ x ∈ xs, Whole (render x).toList)
    (hsome : ∀ x ∈ xs, tokens (render x).toList ≠ []) :
    Whole (", ".intercalate (xs.map render)).toList := by
  rw [String.toList_intercalate, List.map_map]
  exact (whole_intercalate (by decide) (by simp [endsNumber]) (by simp) h hsome).1

theorem Value.Readable.tokens_ne_nil {constant : Bool} {v : Value} (h : v.Readable constant) :
    Sdl.tokens v.render.toList ≠ [] := by
  obtain ⟨t, ts, htokens, -, -⟩ := h.opens
  rw [h.lexes.tokens_eq, htokens]
  exact List.cons_ne_nil t ts

theorem whole_named {name text : String} (hname : isName name.toList = true)
    (h : Whole text.toList) (hsome : tokens text.toList ≠ []) :
    Whole (name ++ ": " ++ text).toList := by
  have hcolon : Whole (':' :: ' ' :: text.toList) := (h.separator hsome rfl).punct (by decide)
  simpa using (whole_name hname).append hcolon (by simp [endsNumber, isPunct])

theorem Value.Regular.whole {constant : Bool} {v : Value} (h : v.Regular constant) :
    Whole v.render.toList := by
  induction h with
  | var _ hname =>
    rw [Value.render, String.toList_append]
    exact (whole_name hname).punct (by decide)
  | int _ => exact whole_repr _
  | text s => exact whole_quote s
  | bool b => cases b <;> exact whole_name (by decide)
  | null => exact whole_name (by decide)
  | enum hname _ => exact whole_name hname
  | list hitems ih =>
    have hinside := whole_commas Value.render ih fun v hv => (hitems v hv).readable.tokens_ne_nil
    rw [Value.render, renderItems_eq_map]
    simpa using hinside.enclosed '[' ']' (by decide) (by decide)
  | object _ hnames hvalues ih =>
    have hentries := whole_commas (fun e : String × Value => e.1 ++ ": " ++ e.2.render)
      (fun e he => whole_named (hnames e he) (ih e he) (hvalues e he).readable.tokens_ne_nil)
      fun e he => by
        rw [(lexes_named (hnames e he) (hvalues e he).readable.lexes).tokens_eq]
        exact List.cons_ne_nil _ _
    rw [Value.render, renderEntries_eq_map]
    simpa using hentries.enclosed '\x7b' '\x7d' (by decide) (by decide)

end SchemaGraph.Sdl
