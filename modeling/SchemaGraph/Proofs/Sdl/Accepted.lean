import SchemaGraph.Proofs.Decimal.Rounding
import SchemaGraph.Proofs.Sdl.Lexing
import SchemaGraph.Proofs.Sdl.Reading

/-! What readers accept. The tokens of a text are ones the language has, or bad ones, and a reader
that gives an answer has not taken a bad one. -/

namespace SchemaGraph.Sdl

def Token.Formed : Token → Prop
  | .name s => isName s.toList = true
  | .int n => fitsInt64 n = true
  | .float x => x.IsCanonical
  | _ => True

theorem formed_numberToken (cs : List Char) : (numberToken cs).Formed := by
  have hdecimal : ∀ whole fraction exponent, ∀ x ∈ decimal? whole fraction exponent,
      x.IsCanonical := by
    intro whole fraction exponent x hx
    rw [decimal?] at hx
    split at hx
    · obtain rfl := Option.some.inj hx
      exact Binary64.isCanonical_ofDecimal _ _ _
    · cases hx
  unfold numberToken
  split
  · dsimp only
    split
    · rename_i x hx
      show x.IsCanonical
      split at hx
      · split at hx
        · cases hx
        · exact hdecimal _ _ _ x hx
      · split at hx
        · cases hx
        · split at hx
          · exact hdecimal _ _ _ x hx
          · exact hdecimal _ _ _ x hx
    · trivial
  · split
    · rename_i hint
      exact hint.2
    · trivial

theorem formed_token (c : Char) (cs : List Char) : (token c cs).1.Formed := by
  unfold token
  split
  · trivial
  split
  · rename_i hstart
    show isName (String.ofList _).toList = true
    rw [String.toList_ofList, isName, hstart]
    simp
  split
  · exact formed_numberToken _
  · split
    · trivial
    · split <;> trivial
    · split <;> trivial
    · trivial

theorem formed_tokens (cs : List Char) : ∀ t ∈ tokens cs, t.Formed := by
  unfold tokens
  fun_induction lexemes cs with
  | case1 => exact fun _ ht => absurd ht List.not_mem_nil
  | case2 cs g c r h t n htoken after ih =>
    have hformed := formed_token c r
    rw [htoken] at hformed
    exact List.forall_mem_cons.2 ⟨hformed, ih⟩

namespace Reader

variable {α β : Type} {P Q : α → Prop} {p : Reader α} {ts us rest : List Token} {a : α}

def Leaves (ts rest : List Token) : Prop := ∃ taken, ts = taken ++ rest ∧ .bad ∉ taken

theorem Leaves.refl (ts : List Token) : Leaves ts ts := ⟨[], rfl, List.not_mem_nil⟩

theorem Leaves.cons {t : Token} (ht : t ≠ .bad) (ts : List Token) : Leaves (t :: ts) ts :=
  ⟨[t], rfl, fun h => ht (List.mem_singleton.1 h).symm⟩

theorem Leaves.trans (h : Leaves ts us) (h' : Leaves us rest) : Leaves ts rest := by
  obtain ⟨taken, rfl, hbad⟩ := h
  obtain ⟨taken', rfl, hbad'⟩ := h'
  refine ⟨taken ++ taken', (List.append_assoc ..).symm, fun hmem => ?_⟩
  exact (List.mem_append.1 hmem).elim hbad hbad'

theorem Leaves.formed (h : Leaves ts rest) (hts : ∀ t ∈ ts, t.Formed) : ∀ t ∈ rest, t.Formed := by
  obtain ⟨taken, rfl, -⟩ := h
  exact fun t ht => hts t (List.mem_append_right _ ht)

theorem Leaves.not_mem_bad (h : Leaves ts []) : .bad ∉ ts := by
  obtain ⟨taken, rfl, hbad⟩ := h
  rwa [List.append_nil]

def Yields (P : α → Prop) (p : Reader α) : Prop :=
  ∀ ts a rest, (∀ t ∈ ts, t.Formed) → p ts = .ok (a, rest) → P a ∧ Leaves ts rest

theorem Yields.imp (h : Yields P p) (hPQ : ∀ a, P a → Q a) : Yields Q p :=
  fun ts a rest hts hp => (h ts a rest hts hp).imp_left (hPQ a)

theorem Yields.pure (ha : P a) : Yields P (pure a) := by
  rintro ts _ _ - ⟨⟩
  exact ⟨ha, .refl ts⟩

theorem Yields.throw (e : List Token) : Yields P (throw e : Reader α) := by
  rintro ts _ _ - ⟨⟩

theorem exists_of_bind {b : β} {f : α → Reader β} (h : (p >>= f) ts = .ok (b, us)) :
    ∃ a rest, p ts = .ok (a, rest) ∧ f a rest = .ok (b, us) := by
  have h : (p ts >>= fun r => f r.1 r.2) = .ok (b, us) := h
  rcases hpts : p ts with e | ⟨a, rest⟩
  · rw [hpts] at h
    cases h
  · rw [hpts] at h
    exact ⟨a, rest, rfl, h⟩

theorem Yields.bind {Q : β → Prop} {f : α → Reader β} (hp : Yields P p)
    (hf : ∀ a, P a → Yields Q (f a)) : Yields Q (p >>= f) := by
  intro ts b us hts h
  obtain ⟨a, rest, hpts, hfa⟩ := exists_of_bind h
  obtain ⟨ha, hleft⟩ := hp ts a rest hts hpts
  obtain ⟨hb, hleft'⟩ := hf a ha rest b us (hleft.formed hts) hfa
  exact ⟨hb, hleft.trans hleft'⟩

theorem Yields.map {Q : β → Prop} {f : α → β} (hp : Yields P p) (hf : ∀ a, P a → Q (f a)) :
    Yields Q (f <$> p) := by
  have hbind : Yields Q (p >>= fun a => Pure.pure (f a)) := hp.bind fun a ha => .pure (hf a ha)
  exact hbind

theorem yields_next : Yields (fun _ => True) next := by
  rintro ts _ _ - ⟨⟩
  exact ⟨trivial, .refl ts⟩

theorem yields_rest : Yields (fun _ => True) Reader.rest := by
  rintro ts _ _ - ⟨⟩
  exact ⟨trivial, .refl ts⟩

theorem yields_exactly {t : Token} (ht : t ≠ .bad) : Yields (fun _ => True) (exactly t) := by
  intro ts _ rest _ h
  cases ts with
  | nil => cases h
  | cons u us =>
    rw [exactly] at h
    split at h
    · cases h
      exact ⟨trivial, .cons (by rwa [‹u = t›]) _⟩
    · cases h

theorem yields_punct (c : Char) : Yields (fun _ => True) (punct c) :=
  yields_exactly Token.noConfusion

theorem yields_word (s : String) : Yields (fun _ => True) (word s) :=
  yields_exactly Token.noConfusion

theorem yields_name : Yields (fun s => isName s.toList = true) name := by
  intro ts _ rest hts h
  unfold name at h
  split at h
  · cases h
    exact ⟨hts _ List.mem_cons_self, .cons Token.noConfusion rest⟩
  · cases h

theorem Yields.maybe {starts : Option Token → Bool} (hp : Yields P p) :
    Yields (fun o => ∀ a ∈ o, P a) (maybe starts p) := by
  refine yields_next.bind fun t _ => ?_
  split
  · refine hp.map fun a ha b hb => ?_
    exact Option.some.inj hb ▸ ha
  · exact .pure fun _ hb => nomatch hb

theorem Yields.many (starts : Option Token → Bool) (hp : Yields P p) :
    Yields (fun as => ∀ a ∈ as, P a) (many starts p) := by
  intro ts as rest hts h
  -- One answer more leaves fewer tokens; all other cases stop or fail.
  fun_induction Reader.many starts p ts generalizing as rest with
  | case3 ts _ a us hpts _ more _ hmore ih =>
    cases h
    obtain ⟨ha, hleft⟩ := hp ts a us hts hpts
    obtain ⟨hall, hleft'⟩ := ih _ _ (hleft.formed hts) hmore
    exact ⟨List.forall_mem_cons.2 ⟨ha, hall⟩, hleft.trans hleft'⟩
  | case5 =>
    cases h
    exact ⟨fun _ ha => absurd ha List.not_mem_nil, .refl _⟩
  | _ => cases h

theorem head?_of_many {starts : Option Token → Bool} {as : List α}
    (h : Reader.many starts p ts = .ok (as, us)) : starts us.head? = false := by
  fun_induction Reader.many starts p ts generalizing as us with
  | case3 _ _ _ _ _ _ _ _ hmore ih =>
    cases h
    exact ih hmore
  | case5 _ hstarts =>
    cases h
    exact Bool.eq_false_iff.2 hstarts
  | _ => cases h

theorem head?_of_many1 {starts : Option Token → Bool} {as : List α}
    (h : Reader.many1 starts p ts = .ok (as, us)) : starts us.head? = false := by
  obtain ⟨a, _, -, h⟩ := exists_of_bind h
  obtain ⟨more, _, hmany, h⟩ := exists_of_bind h
  cases h
  exact head?_of_many hmany

theorem Yields.many1 (starts : Option Token → Bool) (hp : Yields P p) :
    Yields (fun as => ∀ a ∈ as, P a) (many1 starts p) := by
  refine hp.bind fun a ha => (hp.many starts).bind fun as has => ?_
  exact .pure (List.forall_mem_cons.2 ⟨ha, has⟩)

theorem Yields.separated {mark : Char} (hp : Yields P p) :
    Yields (fun as => ∀ a ∈ as, P a) (separated mark p) := by
  have hnext : Yields P (do punct mark; p) := (yields_punct mark).bind fun _ _ => hp
  refine hp.bind fun a ha => (hnext.many _).bind fun as has => ?_
  exact .pure (List.forall_mem_cons.2 ⟨ha, has⟩)

theorem Yields.enclosed (left right : Char) {P : Nat → α → Prop} {p : Nat → Reader α}
    (hp : ∀ room, Yields (P room) (p room)) (room : Nat) :
    Yields (fun a => ∃ inner, room = inner + 1 ∧ P inner a) (enclosed left right p room) := by
  cases room with
  | zero =>
    rintro ts _ _ - ⟨⟩
  | succ room =>
    refine (yields_punct left).bind fun _ _ => (hp room).bind fun a ha => ?_
    exact (yields_punct right).bind fun _ _ => .pure ⟨room, rfl, ha⟩

end Reader

end SchemaGraph.Sdl
