import SchemaGraph.Proofs.Sdl.Boundaries
import SchemaGraph.Proofs.Sdl.Documents

/-! Literals stand for one value each. Before anything that a literal cannot run into, a reader that
may open its brackets takes it for the value it was written for, as far as it goes and no further;
one that may not open them does not read it as something else. No other value has that literal. -/

namespace SchemaGraph.Sdl

open Reader

/-! How deep a value is -/

mutual

def Value.depth : Value → Nat
  | .list items => itemsDepth items + 1
  | .object entries => entriesDepth entries + 1
  | _ => 0

def itemsDepth : List Value → Nat
  | [] => 0
  | v :: vs => max v.depth (itemsDepth vs)

def entriesDepth : List (String × Value) → Nat
  | [] => 0
  | (_, v) :: es => max v.depth (entriesDepth es)

end

mutual

theorem Value.nesting_tokens : ∀ v : Value, nesting v.tokens = v.depth
  | .variable _ | .int _ | .float _ | .text _ | .bool true | .bool false | .null | .enum _ => rfl
  | .list items => by
    rw [Value.tokens, nesting_enclosed (fun _ => rfl) (fun _ => rfl) (bracketed_itemTokens items),
      nesting_itemTokens items, Value.depth]
  | .object entries => by
    rw [Value.tokens, nesting_enclosed (fun _ => rfl) (fun _ => rfl)
      (bracketed_entryTokens entries), nesting_entryTokens entries, Value.depth]

theorem nesting_itemTokens : ∀ items : List Value, nesting (itemTokens items) = itemsDepth items
  | [] => rfl
  | v :: vs => by
    rw [itemTokens, v.bracketed.nesting_append, v.nesting_tokens, nesting_itemTokens vs,
      itemsDepth]

theorem nesting_entryTokens :
    ∀ entries : List (String × Value), nesting (entryTokens entries) = entriesDepth entries
  | [] => rfl
  | (_, v) :: es => by
    rw [entryTokens, List.cons_append, List.cons_append, nesting_cons rfl, nesting_cons rfl,
      v.bracketed.nesting_append, v.nesting_tokens, nesting_entryTokens es, entriesDepth]

end

/-! More room -/

def Extends {α : Type} (p q : Reader α) : Prop :=
  ∀ ts a rest, p ts = .ok (a, rest) → q ts = .ok (a, rest)

theorem Extends.many {α : Type} {p q : Reader α} (hpq : Extends p q)
    {starts starts' : Option Token → Bool} (hstarts : ∀ t, starts t = true → starts' t = true)
    {ts rest : List Token} {as : List α} (h : many starts p ts = .ok (as, rest))
    (hend : starts' rest.head? = false) : many starts' q ts = .ok (as, rest) := by
  fun_induction Reader.many starts p ts generalizing as rest with
  | case3 ts hstart a us hp hlt more _ hmore ih =>
    cases h
    exact many_cons starts' q (hstarts _ hstart) (hpq _ _ _ hp) hlt (ih hmore hend)
  | case5 =>
    cases h
    exact many_of_not_starts starts' q _ hend
  | _ => cases h

theorem exists_of_punct {c : Char} {ts rest : List Token} {u : Unit}
    (h : punct c ts = .ok (u, rest)) : ts = .punct c :: rest := by
  unfold punct exactly at h
  split at h
  · split at h
    · rename_i heq
      cases h
      rw [heq]
    · cases h
  · cases h

section Room

variable {constant : Bool} {room : Nat} {ts rest : List Token} {v : Value}

theorem exists_of_value_list (h : value constant (room + 1) (.punct '[' :: ts) = .ok (v, rest)) :
    ∃ vs, many (startsValue constant) (value constant room) ts = .ok (vs, .punct ']' :: rest) ∧
      v = .list vs := by
  rw [value, if_pos rfl] at h
  obtain ⟨vs, us, hmany, h⟩ := exists_of_bind h
  obtain ⟨_, _, hpunct, h⟩ := exists_of_bind h
  cases h
  exact ⟨vs, exists_of_punct hpunct ▸ hmany, rfl⟩

theorem exists_of_value_object
    (h : value constant (room + 1) (.punct '\x7b' :: ts) = .ok (v, rest)) :
    ∃ es, many startsWithName (entry constant room) ts = .ok (es, .punct '\x7d' :: rest) ∧
      v = .object (Sorted.ofList es) := by
  rw [value, if_neg (by decide), if_pos rfl] at h
  obtain ⟨es, us, hmany, h⟩ := exists_of_bind h
  obtain ⟨_, _, hpunct, h⟩ := exists_of_bind h
  cases h
  exact ⟨es, exists_of_punct hpunct ▸ hmany, rfl⟩

theorem exists_of_bracketless {c : Char} (h : value.bracketless constant c ts = .ok (v, rest)) :
    ∃ s, c = '$' ∧ ts = .name s :: rest ∧ v = .variable s := by
  unfold value.bracketless at h
  split at h
  · rename_i hc
    obtain ⟨s, us, hname, h⟩ := exists_of_bind (f := fun s => pure (Value.variable s)) h
    cases h
    unfold name at hname
    split at hname
    · cases hname
      exact ⟨s, hc.1, rfl, rfl⟩
    · cases hname
  · cases h

end Room

section Extends

variable {constant : Bool} {room room' : Nat}

theorem extends_entry (h : Extends (value constant room) (value false room')) :
    Extends (entry constant room) (entry false room') := by
  intro ts e rest he
  obtain ⟨n, us, hname, he⟩ := exists_of_bind he
  obtain ⟨_, ws, hcolon, he⟩ := exists_of_bind he
  obtain ⟨v, xs, hv, he⟩ := exists_of_bind he
  cases he
  rw [entry, bind_ok hname, bind_ok hcolon, bind_ok (h _ _ _ hv)]
  rfl

theorem startsValue_of_constant (t : Option Token) (h : startsValue constant t = true) :
    startsValue false t = true := by
  cases constant with
  | false => exact h
  | true =>
    unfold startsValue at h ⊢
    split at h <;> simp_all

theorem extends_value_step (hle : room ≤ room')
    (h : ∀ inner inner', room = inner + 1 → room' = inner' + 1 →
      Extends (value constant inner) (value false inner')) :
    Extends (value constant room) (value false room') := by
  intro ts v rest hv
  have hcases := hv
  rw [value.eq_def] at hcases
  split at hcases
  · cases hcases
    exact value_name false room' _ rest
  · cases hcases
    rw [value]
  · cases hcases
    rw [value]
  · cases hcases
    rw [value]
  · obtain ⟨s, rfl, rfl, rfl⟩ := exists_of_bracketless hcases
    exact value_dollar room' s rest
  · rename_i inner c ts
    obtain ⟨inner', rfl⟩ : ∃ inner', room' = inner' + 1 := ⟨room' - 1, by omega⟩
    have hinner := h inner inner' rfl rfl
    split at hcases
    · rename_i hc
      subst hc
      obtain ⟨vs, hmany, rfl⟩ := exists_of_value_list hv
      -- A closing bracket starts no value, whether variables may stand there or not.
      exact value_list (hinner.many startsValue_of_constant hmany rfl)
    · split at hcases
      · rename_i hc
        subst hc
        obtain ⟨es, hmany, rfl⟩ := exists_of_value_object hv
        exact value_object ((extends_entry hinner).many (fun _ ht => ht) hmany rfl)
      · obtain ⟨s, rfl, rfl, rfl⟩ := exists_of_bracketless hcases
        exact value_dollar _ s rest
  · cases hcases

theorem extends_value (hle : room ≤ room') : Extends (value constant room) (value false room') := by
  induction room generalizing room' with
  | zero => exact extends_value_step hle fun _ _ hinner => nomatch hinner
  | succ room ih =>
    refine extends_value_step hle fun inner inner' hinner hinner' => ?_
    obtain rfl := Nat.succ.inj hinner
    exact ih (by omega)

end Extends

/-! One value for each literal -/

theorem Value.Regular.reread_eq {constant : Bool} {v : Value} (h : v.Regular constant) :
    v.reread = v := by
  induction h with
  | list _ ih =>
    rw [reread_list, List.map_congr_left ih, List.map_id']
  | @object entries _ _ _ ih =>
    have hentries : entries.map (fun e => (e.1, e.2.reread)) = entries.map id :=
      List.map_congr_left fun e he => by rw [ih e he, id]
    rw [reread_object, hentries, List.map_id]
  | _ => rfl

theorem Value.Regular.of_formed {constant constant' : Bool} {v : Value} (h : v.Regular constant)
    (hformed : v.Formed constant') : v.Regular constant' := by
  induction h with
  | var _ hname =>
    cases hformed with
    | var hconstant _ => exact .var hconstant hname
  | int hfits => exact .int hfits
  | text s => exact .text s
  | bool b => exact .bool b
  | null => exact .null
  | enum hname henum => exact .enum hname henum
  | list _ ih =>
    cases hformed with
    | list hitems => exact .list fun v hv => ih v hv (hitems v hv)
  | object hsorted hnames _ ih =>
    cases hformed with
    | object _ _ hvalues => exact .object hsorted hnames fun e he => ih e he (hvalues e he)

section Literal

variable {constant : Bool} {room : Nat} {v w : Value} {rest : List Char}

theorem Value.Regular.value_eq_ok (h : v.Regular constant) (hrest : Delimited rest)
    (hroom : v.depth ≤ room) :
    value constant room (Sdl.tokens (v.render.toList ++ rest)) = .ok (v, Sdl.tokens rest) := by
  rw [← v.nesting_tokens] at hroom
  rw [h.readable.lexes rest hrest]
  exact h.readable.reads hroom _ trivial

theorem value_render_eq_ok_iff (h : v.Regular false) (hrest : Delimited rest)
    {left : List Token} :
    value constant room (tokens (v.render.toList ++ rest)) = .ok (w, left) ↔
      (v.Regular constant ∧ v.depth ≤ room) ∧ w = v ∧ left = tokens rest := by
  constructor
  · intro hw
    -- With room enough the text is read as `v`, so with less it is read as `v` or not at all.
    have hmore := extends_value (Nat.le_max_left room v.depth) _ _ _ hw
    rw [h.value_eq_ok hrest (Nat.le_max_right room v.depth)] at hmore
    cases hmore
    obtain ⟨hformed, hnesting⟩ := (yields_value constant room _ _ _ (formed_tokens _) hw).1
    rw [h.reread_eq, v.nesting_tokens] at hnesting
    exact ⟨⟨h.of_formed hformed, hnesting⟩, rfl, rfl⟩
  · rintro ⟨⟨hconstant, hroom⟩, rfl, rfl⟩
    exact hconstant.value_eq_ok hrest hroom

theorem eq_of_render_append_eq (hv : v.Regular false) (hw : w.Regular false)
    (hrest : Delimited rest) {rest' : List Char} (hrest' : Delimited rest')
    (h : v.render.toList ++ rest = w.render.toList ++ rest') : v = w := by
  have hread := hv.value_eq_ok hrest (Nat.le_max_left v.depth w.depth)
  rw [h, hw.value_eq_ok hrest' (Nat.le_max_right v.depth w.depth)] at hread
  exact (Prod.mk.inj (Except.ok.inj hread)).1.symm

end Literal

/-- What may come after a literal: another one, the end of what it stands in, or a directive. -/
def followers : List Char := [',', ')', ']', '\x7d', '@']

theorem delimited_follower {c : Char} (hc : c ∈ followers) (rest : List Char) :
    Delimited (c :: rest) := by
  have hall : followers.all endsNumber = true := by decide
  exact (delimited_cons c rest).2 (List.all_eq_true.1 hall c hc)

structure Value.ReadsBack (v : Value) (rest : List Char) : Prop where
  cut : lexemes (v.render.toList ++ rest) =
    ((lexemes v.render.toList).1 ++ (lexemes rest).1, (lexemes rest).2)
  chars : Lexeme.all (lexemes v.render.toList).1 = v.render.toList
  read : ∀ constant room w left,
    value constant room (Sdl.tokens (v.render.toList ++ rest)) = .ok (w, left) ↔
      (v.Regular constant ∧ v.depth ≤ room) ∧ w = v ∧ left = Sdl.tokens rest

/-- Before any of the followers a literal is read as the value it was written for, if there is room
for its brackets and it holds no variable where none may stand; else it is not read at all. Written
out again, what is read has the same literal, and no other value has it. -/
theorem literal_unambiguous {v : Value} (hv : v.Regular false) {c : Char} (hc : c ∈ followers)
    (rest : List Char) :
    v.ReadsBack (c :: rest) ∧
      (∀ constant room w left, value constant room (tokens (v.render.toList ++ c :: rest)) =
        .ok (w, left) → w.render = v.render) ∧
      ∀ w : Value, w.Regular false → w.render = v.render → w = v := by
  have hrest := delimited_follower hc rest
  refine ⟨⟨hv.whole _ hrest, hv.whole.all_eq, fun _ _ _ _ => ?_⟩, ?_, ?_⟩
  · exact value_render_eq_ok_iff hv hrest
  · intro constant room w left hw
    obtain ⟨-, rfl, -⟩ := (value_render_eq_ok_iff hv hrest).1 hw
    rfl
  · intro w hw hrender
    refine eq_of_render_append_eq hw hv hrest hrest ?_
    rw [hrender]

/-- The least integer, a text with a mark and a bracket in it, and an enum that is nearly a keyword;
what follows is a directive. -/
theorem literal_unambiguous_of_sort_order :
    let order : Value := .object [("by", .list [.int (-9223372036854775808), .text "a\"]",
      .variable "n"]), ("kind", .enum "nulls")]
    let rest : List Char := ['@', 't', 'a', 'g']
    order.render = "\x7bby: [-9223372036854775808, \"a\\\"]\", $n], kind: nulls\x7d" ∧
      order.Regular false ∧ '@' ∈ followers ∧ order.ReadsBack rest ∧
      value false 2 (tokens (order.render.toList ++ rest)) =
        .ok (order, [.punct '@', .name "tag"]) := by
  intro order rest
  have hregular : order.Regular false := by
    have hsorted : ("by" : String) < "kind" := by decide
    refine .object (List.pairwise_pair.2 hsorted) (by decide) (List.forall_mem_cons.2 ⟨.list ?_,
      List.forall_mem_singleton.2 (.enum (by decide) rfl)⟩)
    exact List.forall_mem_cons.2 ⟨.int (by decide), List.forall_mem_cons.2
      ⟨.text _, List.forall_mem_singleton.2 (.var rfl (by decide))⟩⟩
  have hfollower : '@' ∈ followers := by decide
  have hback := (literal_unambiguous hregular hfollower ['t', 'a', 'g']).1
  have hdepth : order.depth ≤ 2 := by decide
  have htag : tokens rest = [.punct '@', .name "tag"] := by decide +kernel
  have hread := (hback.read false 2 order (tokens rest)).2 ⟨⟨hregular, hdepth⟩, rfl, rfl⟩
  rw [htag] at hread
  exact ⟨by decide +kernel, hregular, hfollower, hback, hread⟩

end SchemaGraph.Sdl
