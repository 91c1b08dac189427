import SchemaGraph.Sdl.Lexeme
import SchemaGraph.Text.Quoted

/-! Texts that are cut into given tokens wherever they stand, as long as what follows does not
run into them. Separators leave no token, punctuation is a token of its own, and names, texts
and numbers are cut off where one of the two begins. -/

namespace SchemaGraph.Sdl

theorem tokens_eq (cs : List Char) : tokens cs =
    match (gap false cs).2 with
    | [] => []
    | c :: r => (token c r).1 :: tokens (r.drop (token c r).2) := by
  unfold tokens
  rw [lexemes]
  split <;> simp_all

@[simp] theorem tokens_nil : tokens [] = [] := by
  rw [tokens_eq]
  rfl

theorem tokens_separator {c : Char} (h : isSeparator c = true) (cs : List Char) :
    tokens (c :: cs) = tokens cs := by
  have hcomment : c ≠ '#' := by
    rintro rfl
    revert h
    decide
  have hgap : gap false (c :: cs) = (c :: (gap false cs).1, (gap false cs).2) := by
    simp [gap, h, hcomment]
  rw [tokens_eq (c :: cs), tokens_eq cs, hgap]

theorem tokens_cons {c : Char} (hsep : isSeparator c = false) (hcomment : c ≠ '#')
    (cs : List Char) : tokens (c :: cs) = (token c cs).1 :: tokens (cs.drop (token c cs).2) := by
  have hgap : gap false (c :: cs) = ([], c :: cs) := by
    simp [gap, hsep, hcomment]
  rw [tokens_eq, hgap]

def Delimited (cs : List Char) : Prop := ∀ c ∈ cs.head?, endsNumber c = true

@[simp] theorem delimited_nil : Delimited [] := fun _ h => by cases h

@[simp] theorem delimited_cons (c : Char) (cs : List Char) :
    Delimited (c :: cs) ↔ endsNumber c = true := by
  simp [Delimited]

theorem Delimited.append {as bs : List Char} (ha : Delimited as) (hb : Delimited bs) :
    Delimited (as ++ bs) := by
  cases as with
  | nil => exact hb
  | cons a as => simpa using ha

def Lexes (cs : List Char) (ts : List Token) : Prop :=
  ∀ rest, Delimited rest → tokens (cs ++ rest) = ts ++ tokens rest

variable {as bs cs : List Char} {ts us : List Token}

theorem Lexes.tokens_eq (h : Lexes cs ts) : tokens cs = ts := by
  simpa using h [] delimited_nil

def Separable (s : String) : Prop := Lexes s.toList (tokens s.toList)

theorem Lexes.separable {s : String} (h : Lexes s.toList ts) : Separable s := by
  unfold Separable
  rwa [h.tokens_eq]

theorem lexes_nil : Lexes [] [] := fun _ _ => rfl

theorem Lexes.append (ha : Lexes as ts) (hb : Lexes bs us) (hd : Delimited bs) :
    Lexes (as ++ bs) (ts ++ us) := by
  intro rest hrest
  rw [List.append_assoc, ha _ (hd.append hrest), hb rest hrest, List.append_assoc]

theorem Lexes.separator (h : Lexes cs ts) {c : Char} (hc : isSeparator c = true) :
    Lexes (c :: cs) ts := by
  intro rest hrest
  rw [List.cons_append, tokens_separator hc, h rest hrest]

theorem Lexes.separators (h : Lexes cs ts) {sep : List Char}
    (hsep : sep.all isSeparator = true) : Lexes (sep ++ cs) ts := by
  induction sep with
  | nil => exact h
  | cons c sep ih =>
    rw [List.all_cons, Bool.and_eq_true] at hsep
    exact (ih hsep.2).separator hsep.1

variable {α : Type} {text : α → List Char} {cut : α → List Token} {xs : List α}

theorem lexes_flatMap (h : ∀ x ∈ xs, Lexes (text x) (cut x)) (hd : ∀ x ∈ xs, Delimited (text x)) :
    Lexes (xs.flatMap text) (xs.flatMap cut) ∧ Delimited (xs.flatMap text) := by
  induction xs with
  | nil => exact ⟨lexes_nil, delimited_nil⟩
  | cons x xs ih =>
    obtain ⟨hlex, hdel⟩ := ih (fun y hy => h y (List.mem_cons_of_mem _ hy))
      fun y hy => hd y (List.mem_cons_of_mem _ hy)
    have hx := hd x List.mem_cons_self
    rw [List.flatMap_cons, List.flatMap_cons]
    exact ⟨(h x List.mem_cons_self).append hlex hdel, hx.append hdel⟩

theorem lexes_intercalate {sep : List Char} (hsep : sep.all isSeparator = true)
    (hd : Delimited sep) (hne : sep ≠ []) (h : ∀ x ∈ xs, Lexes (text x) (cut x)) :
    Lexes (sep.intercalate (xs.map text)) (xs.flatMap cut) := by
  induction xs with
  | nil => exact lexes_nil
  | cons x xs ih =>
    have hx := h x List.mem_cons_self
    have hxs := ih fun y hy => h y (List.mem_cons_of_mem _ hy)
    rcases xs with _ | ⟨y, ys⟩
    · simpa using hx
    have hrest : Delimited (sep ++ sep.intercalate ((y :: ys).map text)) := by
      obtain ⟨c, cs, rfl⟩ := List.exists_cons_of_ne_nil hne
      simpa using hd
    rw [List.flatMap_cons, List.map_cons, List.map_cons, List.intercalate_cons_cons]
    rw [List.append_assoc]
    exact hx.append (hxs.separators hsep) hrest

def puncts : List Char :=
  ['!', '$', ':', '=', '@', '|', '&', '(', ')', '[', ']', '\x7b', '\x7d']

theorem mem_puncts (c : Char) : c ∈ puncts ↔ isPunct c = true := by
  simp [puncts, isPunct, or_assoc]

theorem delimited_punct {c : Char} (hc : c ∈ puncts) (cs : List Char) : Delimited (c :: cs) := by
  simp [endsNumber, (mem_puncts c).1 hc]

theorem token_punct {c : Char} (h : isPunct c = true) (cs : List Char) :
    token c cs = (.punct c, 0) := by
  unfold token
  rw [if_pos h]

theorem not_skipped_of_mem_puncts {c : Char} (hc : c ∈ puncts) :
    isSeparator c = false ∧ c ≠ '#' := by
  have hall : puncts.all (fun c => !isSeparator c && c != '#') = true := by decide
  have hskip := List.all_eq_true.1 hall c hc
  rwa [Bool.and_eq_true, Bool.not_eq_true', bne_iff_ne] at hskip

theorem tokens_punct {c : Char} (hc : c ∈ puncts) (cs : List Char) :
    tokens (c :: cs) = .punct c :: tokens cs := by
  obtain ⟨hsep, hcomment⟩ := not_skipped_of_mem_puncts hc
  rw [tokens_cons hsep hcomment, token_punct ((mem_puncts c).1 hc)]
  rw [List.drop_zero]

theorem Lexes.punct (h : Lexes cs ts) {c : Char} (hc : c ∈ puncts) :
    Lexes (c :: cs) (.punct c :: ts) := by
  intro rest hrest
  rw [List.cons_append, tokens_punct hc, h rest hrest, List.cons_append]

def stops : List Char := [' ', ',', '\t', '\r', '\n', '\ufeff', '#'] ++ puncts

theorem not_mem_stops {c : Char} :
    c ∉ stops ↔ isSeparator c = false ∧ c ≠ '#' ∧ isPunct c = false := by
  rw [← Bool.not_eq_true (isPunct c), ← mem_puncts]
  simp [stops, isSeparator, and_assoc]

theorem mem_stops_of_endsNumber {c : Char} (h : endsNumber c = true) : c ∈ stops := by
  have hpunct := mem_puncts c
  simp only [endsNumber, Bool.or_eq_true, decide_eq_true_eq] at h
  simp only [stops, List.mem_append, List.mem_cons]
  grind

theorem not_mem_stops_of_isNameChar {c : Char} (h : isNameChar c = true) : c ∉ stops := by
  have hall : stops.all (fun c => !isNameChar c) = true := by decide
  intro hc
  have hstop := List.all_eq_true.1 hall c hc
  rw [h] at hstop
  cases hstop

theorem takeWhile_append_of_delimited {p : Char → Bool} {cs rest : List Char}
    (hcs : ∀ c ∈ cs, p c = true) (hp : ∀ c, endsNumber c = true → p c = false)
    (hrest : Delimited rest) : (cs ++ rest).takeWhile p = cs := by
  rw [List.takeWhile_append_of_pos hcs]
  cases rest with
  | nil => simp
  | cons c rest => simp [hp c ((delimited_cons c rest).1 hrest)]

theorem all_isNameChar {cs : List Char} (h : isName cs = true) : cs.all isNameChar = true := by
  cases cs with
  | nil => rfl
  | cons c cs =>
    rw [isName, Bool.and_eq_true] at h
    rw [List.all_cons, isNameChar, h.1, h.2]
    rfl

theorem not_mem_stops_of_isName {c : Char} {cs : List Char} (h : isName (c :: cs) = true) :
    c ∉ stops := by
  have hchars := all_isNameChar h
  rw [List.all_cons, Bool.and_eq_true] at hchars
  exact not_mem_stops_of_isNameChar hchars.1

theorem token_name {c : Char} {cs rest : List Char} (h : isName (c :: cs) = true)
    (hrest : Delimited rest) :
    token c (cs ++ rest) = (.name (String.ofList (c :: cs)), cs.length) := by
  have hstop := not_mem_stops.1 (not_mem_stops_of_isName h)
  rw [isName, Bool.and_eq_true, List.all_eq_true] at h
  have htake : (cs ++ rest).takeWhile isNameChar = cs := by
    refine takeWhile_append_of_delimited h.2 (fun d hd => ?_) hrest
    refine Bool.eq_false_iff.2 fun hname => ?_
    exact not_mem_stops_of_isNameChar hname (mem_stops_of_endsNumber hd)
  unfold token
  rw [if_neg (by simp [hstop]), if_pos h.1, htake]

theorem lexes_name {s : String} (h : isName s.toList = true) : Lexes s.toList [.name s] := by
  intro rest hrest
  rcases hs : s.toList with _ | ⟨c, cs⟩
  · rw [hs] at h
    cases h
  rw [hs] at h
  have hstop := not_mem_stops.1 (not_mem_stops_of_isName h)
  rw [List.cons_append, tokens_cons hstop.1 hstop.2.1, token_name h hrest, ← hs,
    String.ofList_toList]
  simp

theorem textBody_plainEscape {c d : Char} (h : plainEscape? c = some d) (r : List Char) :
    textBody ('\\' :: c :: r) = (textBody r).map fun b => (d :: b.1, b.2) := by
  have hu : c ≠ 'u' := by
    rintro rfl
    cases h
  rw [textBody.eq_5 c r fun _ _ _ _ _ h => absurd h hu, h]
  cases textBody r <;> rfl

theorem textBody_escapeChar (c : Char) (r : List Char) :
    textBody (Text.escapeChar c ++ r) = (textBody r).map fun b => (c :: b.1, b.2) := by
  unfold Text.escapeChar
  split
  case h_6 hquote hback hline _ _ =>
    rw [List.singleton_append, textBody.eq_6 c r hquote hline
      (fun _ _ _ _ _ h => absurd h hback) fun _ _ h => absurd h hback]
    cases textBody r <;> rfl
  all_goals exact textBody_plainEscape rfl r

theorem textBody_escape (cs rest : List Char) :
    textBody (Text.escape cs ++ '"' :: rest) = some (cs, rest) := by
  induction cs with
  | nil => rfl
  | cons c cs ih =>
    rw [Text.escape, List.flatMap_cons, List.append_assoc, textBody_escapeChar]
    rw [← Text.escape, ih]
    rfl

/-- A second mark ends the text, unless a third one makes the three of them open a block. -/
theorem token_mark {r : List Char} (h : ∀ body, r ≠ '"' :: '"' :: body) :
    token '"' r =
      match textBody r with
      | some (cs, rest) => (.text (String.ofList cs), r.length - rest.length)
      | none => (.bad, r.length) := by
  unfold token
  rw [if_neg (by decide), if_neg (by decide), if_neg (by decide)]
  split
  · simp_all
  · exact absurd rfl (h _)
  · rfl
  · rename_i hmark _ _
    exact absurd rfl hmark

theorem escape_append_ne_marks (cs : List Char) {rest : List Char}
    (hrest : cs = [] → rest.head? ≠ some '"') (body : List Char) :
    Text.escape cs ++ '"' :: rest ≠ '"' :: '"' :: body := by
  rintro h
  cases cs with
  | nil =>
    -- Only here do two marks meet, the opening one and the closing one.
    rw [Text.escape, List.flatMap_nil, List.nil_append, List.cons.injEq] at h
    exact hrest rfl (by rw [h.2]; rfl)
  | cons c cs =>
    -- A mark inside the text has a backslash before it.
    have hhead : ∃ d ds, Text.escapeChar c = d :: ds ∧ d ≠ '"' := by
      unfold Text.escapeChar
      split <;> simp_all
    obtain ⟨d, ds, hd, hne⟩ := hhead
    rw [Text.escape, List.flatMap_cons, hd] at h
    exact hne (List.cons.inj h).1

theorem token_quote (s : String) {rest : List Char} (hrest : s = "" → rest.head? ≠ some '"') :
    token '"' (Text.escape s.toList ++ '"' :: rest) =
      (.text s, (Text.escape s.toList).length + 1) := by
  have hempty : s.toList = [] → rest.head? ≠ some '"' := fun h =>
    hrest (String.toList_eq_nil_iff.1 h)
  rw [token_mark (escape_append_ne_marks s.toList hempty), textBody_escape]
  simp only [String.ofList_toList, List.length_append, List.length_cons, Prod.mk.injEq, true_and]
  omega

theorem lexes_quote (s : String) : Lexes (Text.quote s).toList [.text s] := by
  intro rest hrest
  have hmark : rest.head? ≠ some '"' := by
    intro h
    have := hrest '"' h
    revert this
    decide
  rw [Text.toList_quote, List.cons_append, List.append_assoc, List.singleton_append]
  rw [tokens_cons rfl (by decide), token_quote s fun _ => hmark]
  simp

end SchemaGraph.Sdl
