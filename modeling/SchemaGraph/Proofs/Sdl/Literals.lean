import SchemaGraph.Proofs.Sdl.Integers
import SchemaGraph.Proofs.Sdl.Nesting
import SchemaGraph.Proofs.Sdl.Reading
import SchemaGraph.Sdl.Document
import SchemaGraph.Sdl.Literal

/-! Values and type references that are read back from their own text. -/

namespace SchemaGraph.Sdl

open Reader

mutual

def Value.tokens : Value → List Token
  | .variable name => [.punct '$', .name name]
  | .int n => [.int n]
  | .float x => [.float x]
  | .text s => [.text s]
  | .bool true => [.name "true"]
  | .bool false => [.name "false"]
  | .null => [.name "null"]
  | .enum name => [.name name]
  | .list items => .punct '[' :: (itemTokens items ++ [.punct ']'])
  | .object entries => .punct '\x7b' :: (entryTokens entries ++ [.punct '\x7d'])

def itemTokens : List Value → List Token
  | [] => []
  | v :: vs => v.tokens ++ itemTokens vs

def entryTokens : List (String × Value) → List Token
  | [] => []
  | (name, v) :: es => .name name :: .punct ':' :: v.tokens ++ entryTokens es

end

theorem itemTokens_eq (vs : List Value) : itemTokens vs = vs.flatMap Value.tokens := by
  induction vs with
  | nil => rw [itemTokens, List.flatMap_nil]
  | cons v vs ih => rw [itemTokens, List.flatMap_cons, ih]

def namedTokens (e : String × Value) : List Token := .name e.1 :: .punct ':' :: e.2.tokens

theorem entryTokens_eq (es : List (String × Value)) :
    entryTokens es = es.flatMap namedTokens := by
  induction es with
  | nil => rw [entryTokens, List.flatMap_nil]
  | cons e es ih => rw [entryTokens, List.flatMap_cons, ih, namedTokens]

/-- Values that a text can stand for, floats apart: names and integers are ones the language has,
entries are in order, and no enum has one of the three names that stand for something else. -/
inductive Value.Regular (constant : Bool) : Value → Prop
  | var {name : String} (hconstant : constant = false) (hname : isName name.toList = true) :
      Regular constant (.variable name)
  | int {n : Int} (hfits : fitsInt64 n = true) : Regular constant (.int n)
  | text (s : String) : Regular constant (.text s)
  | bool (b : Bool) : Regular constant (.bool b)
  | null : Regular constant .null
  | enum {name : String} (hname : isName name.toList = true)
      (henum : nameValue name = .enum name) : Regular constant (.enum name)
  | list {items : List Value} (hitems : ∀ v ∈ items, Regular constant v) :
      Regular constant (.list items)
  | object {entries : List (String × Value)} (hsorted : Sorted.Ascending entries)
      (hnames : ∀ e ∈ entries, isName e.1.toList = true)
      (hvalues : ∀ e ∈ entries, Regular constant e.2) : Regular constant (.object entries)

theorem lexes_commas {α : Type} {render : α → String} {cut : α → List Token} {xs : List α}
    (h : ∀ x ∈ xs, Lexes (render x).toList (cut x)) :
    Lexes (", ".intercalate (xs.map render)).toList (xs.flatMap cut) := by
  rw [String.toList_intercalate, List.map_map]
  exact lexes_intercalate (by decide) (by simp [endsNumber]) (by simp) h

theorem Lexes.enclosed {cs : List Char} {ts : List Token} (h : Lexes cs ts) (left right : Char)
    (hleft : left ∈ puncts) (hright : right ∈ puncts) :
    Lexes (left :: (cs ++ [right])) (.punct left :: (ts ++ [.punct right])) :=
  (h.append (lexes_nil.punct hright) (delimited_punct hright [])).punct hleft

theorem lexes_named {name text : String} {ts : List Token} (hname : isName name.toList = true)
    (h : Lexes text.toList ts) :
    Lexes (name ++ ": " ++ text).toList (.name name :: .punct ':' :: ts) := by
  have hcolon : Lexes (':' :: ' ' :: text.toList) (.punct ':' :: ts) :=
    (h.separator rfl).punct (by decide)
  simpa using (lexes_name hname).append hcolon (by simp [endsNumber, isPunct])

theorem lexes_object (cut : Value → List Token) {entries : List (String × Value)}
    (hnames : ∀ e ∈ entries, isName e.1.toList = true)
    (hvalues : ∀ e ∈ entries, Lexes e.2.render.toList (cut e.2)) :
    Lexes (Value.object entries).render.toList (.punct '\x7b' ::
      (entries.flatMap (fun e => .name e.1 :: .punct ':' :: cut e.2) ++ [.punct '\x7d'])) := by
  have hentries := (lexes_commas fun e he => lexes_named (hnames e he) (hvalues e he)).enclosed
    '\x7b' '\x7d' (by decide) (by decide)
  rw [Value.render, renderEntries_eq_map]
  simpa using hentries

theorem lexes_variable {name : String} (hname : isName name.toList = true) :
    Lexes (Value.variable name).render.toList (Value.variable name).tokens := by
  rw [Value.render, String.toList_append]
  exact (lexes_name hname).punct (by decide)

theorem lexes_list {cut : Value → List Token} {items : List Value}
    (h : ∀ v ∈ items, Lexes v.render.toList (cut v)) :
    Lexes (Value.list items).render.toList
      (.punct '[' :: (items.flatMap cut ++ [.punct ']'])) := by
  have hitems := (lexes_commas h).enclosed '[' ']' (by decide) (by decide)
  rw [Value.render, renderItems_eq_map]
  simpa using hitems

theorem tokens_list (items : List Value) : (Value.list items).tokens =
    .punct '[' :: (items.flatMap Value.tokens ++ [.punct ']']) := by
  rw [Value.tokens, itemTokens_eq]

theorem tokens_object (entries : List (String × Value)) : (Value.object entries).tokens =
    .punct '\x7b' :: (entries.flatMap namedTokens ++ [.punct '\x7d']) := by
  rw [Value.tokens, entryTokens_eq]

mutual

theorem Value.bracketed : ∀ v : Value, Bracketed v.tokens
  | .variable _ => (bracketed_single fun _ => rfl).cons fun _ => rfl
  | .int _ | .float _ | .text _ | .bool true | .bool false | .null | .enum _ =>
    bracketed_single fun _ => rfl
  | .list items => (bracketed_itemTokens items).enclosed (fun _ => rfl) fun _ => rfl
  | .object entries => (bracketed_entryTokens entries).enclosed (fun _ => rfl) fun _ => rfl

theorem bracketed_itemTokens : ∀ items : List Value, Bracketed (itemTokens items)
  | [] => bracketed_nil
  | v :: vs => v.bracketed.append (bracketed_itemTokens vs)

theorem bracketed_entryTokens : ∀ entries : List (String × Value), Bracketed (entryTokens entries)
  | [] => bracketed_nil
  | (_, v) :: es =>
    ((v.bracketed.append (bracketed_entryTokens es)).cons fun _ => rfl).cons fun _ => rfl

end

theorem bracketed_namedTokens (e : String × Value) :
    Bracketed (namedTokens e) ∧ nesting (namedTokens e) = nesting e.2.tokens :=
  ⟨(e.2.bracketed.cons fun _ => rfl).cons fun _ => rfl, by
    rw [namedTokens, nesting_cons rfl, nesting_cons rfl]⟩

theorem value_name (constant : Bool) (room : Nat) (s : String) (ts : List Token) :
    value constant room (.name s :: ts) = .ok (nameValue s, ts) := by
  rw [value]

theorem value_dollar (room : Nat) (s : String) (ts : List Token) :
    value false room (.punct '$' :: .name s :: ts) = .ok (.variable s, ts) := by
  cases room <;> rfl

theorem value_list {constant : Bool} {room : Nat} {ts rest : List Token} {vs : List Value}
    (h : many (startsValue constant) (value constant room) ts = .ok (vs, .punct ']' :: rest)) :
    value constant (room + 1) (.punct '[' :: ts) = .ok (.list vs, rest) := by
  rw [value, if_pos rfl, bind_ok h, bind_ok (punct_cons ']' rest)]
  rfl

def entry (constant : Bool) (room : Nat) : Reader (String × Value) := do
  let n ← name
  punct ':'
  let v ← value constant room
  pure (n, v)

theorem value_object {constant : Bool} {room : Nat} {ts rest : List Token}
    {es : List (String × Value)}
    (h : many startsWithName (entry constant room) ts = .ok (es, .punct '\x7d' :: rest)) :
    value constant (room + 1) (.punct '\x7b' :: ts) = .ok (.object (Sorted.ofList es), rest) := by
  rw [value, if_neg (by decide), if_pos rfl]
  unfold entry at h
  rw [bind_ok h, bind_ok (punct_cons '\x7d' rest)]
  rfl

theorem reads_entry {constant : Bool} {room : Nat} {e : String × Value} {v : Value}
    (h : Reads (fun _ => True) (value constant room) e.2.tokens v) :
    Reads (fun _ => True) (entry constant room) (namedTokens e) (e.1, v) := by
  intro rest _
  rw [namedTokens, List.cons_append, List.cons_append, entry, bind_ok (name_cons _ _),
    bind_ok (punct_cons ':' _), bind_ok (h rest trivial)]
  rfl

theorem opens_namedTokens (e : String × Value) :
    Opens startsWithName (fun _ => True) (namedTokens e) :=
  ⟨_, _, rfl, rfl, trivial⟩

theorem reads_object {constant : Bool} {entries : List (String × Value)}
    (h : ∀ room, ∀ e ∈ entries, nesting e.2.tokens ≤ room →
      Reads (fun _ => True) (value constant room) e.2.tokens e.2) {room : Nat}
    (hroom : nesting (Value.object entries).tokens ≤ room) :
    Reads (fun _ => True) (value constant room) (Value.object entries).tokens
      (.object (Sorted.ofList entries)) := by
  have hbracketed : ∀ e ∈ entries, Bracketed (namedTokens e) := fun e _ =>
    (bracketed_namedTokens e).1
  rw [tokens_object] at hroom ⊢
  rw [nesting_enclosed (fun _ => rfl) (fun _ => rfl) (bracketed_flatMap hbracketed)] at hroom
  obtain ⟨inner, rfl⟩ : ∃ inner, room = inner + 1 := ⟨room - 1, by omega⟩
  have hread : ∀ e ∈ entries, Reads (fun _ => True) (entry constant inner) (namedTokens e) e := by
    intro e he
    have hle := nesting_le_flatMap hbracketed he
    rw [(bracketed_namedTokens e).2] at hle
    exact reads_entry (h inner e he (by omega))
  intro rest _
  have hmany := reads_many (fun e _ => opens_namedTokens e) hread
    (.punct '\x7d' :: rest) ⟨trivial, rfl⟩
  rw [List.map_id'] at hmany
  rw [List.cons_append, List.append_assoc, List.singleton_append, value_object hmany]

structure Value.Readable (constant : Bool) (v : Value) : Prop where
  lexes : Lexes v.render.toList v.tokens
  opens : Opens (startsValue constant) (fun _ => True) v.tokens
  reads : ∀ {room : Nat}, nesting v.tokens ≤ room →
    Reads (fun _ => True) (value constant room) v.tokens v

section Readable

variable {constant : Bool}

theorem readable_single {v : Value} {t : Token} (htokens : v.tokens = [t])
    (hlexes : Lexes v.render.toList [t]) (hstarts : startsValue constant (some t) = true)
    (hread : ∀ room rest, value constant room (t :: rest) = .ok (v, rest)) :
    v.Readable constant := by
  refine ⟨?_, ?_, fun _ rest _ => ?_⟩ <;> rw [htokens]
  · exact hlexes
  · exact ⟨_, _, rfl, hstarts, trivial⟩
  · exact hread _ rest

theorem readable_variable {name : String} (hconstant : constant = false)
    (hname : isName name.toList = true) : (Value.variable name).Readable constant := by
  subst hconstant
  refine ⟨lexes_variable hname, ⟨_, _, rfl, rfl, trivial⟩, ?_⟩
  exact fun _ rest _ => value_dollar _ name rest

theorem readable_int {n : Int} (h : fitsInt64 n = true) : (Value.int n).Readable constant :=
  readable_single rfl (lexes_int h) rfl fun _ _ => by rw [value]

theorem readable_float {x : Binary64} (h : Lexes (Decimal.plain x).toList [.float x]) :
    (Value.float x).Readable constant :=
  readable_single rfl h rfl fun _ _ => by rw [value]

theorem readable_text (s : String) : (Value.text s).Readable constant :=
  readable_single rfl (lexes_quote s) rfl fun _ _ => by rw [value]

theorem readable_bool (b : Bool) : (Value.bool b).Readable constant := by
  cases b <;>
    exact readable_single rfl (lexes_name (by decide)) rfl fun room =>
      value_name constant room _

theorem readable_null : Value.null.Readable constant :=
  readable_single rfl (lexes_name (by decide)) rfl fun room =>
    value_name constant room _

theorem readable_enum {name : String} (hname : isName name.toList = true)
    (henum : nameValue name = .enum name) : (Value.enum name).Readable constant :=
  readable_single rfl (lexes_name hname) rfl fun room rest => by
    rw [value_name, henum]

theorem readable_list {items : List Value} (h : ∀ v ∈ items, v.Readable constant) :
    (Value.list items).Readable constant := by
  have hbracketed : ∀ v ∈ items, Bracketed v.tokens := fun v _ => v.bracketed
  refine ⟨?_, ⟨_, _, rfl, rfl, trivial⟩, fun hroom rest _ => ?_⟩
  · rw [tokens_list]
    exact lexes_list fun v hv => (h v hv).lexes
  · rw [tokens_list] at hroom ⊢
    rw [nesting_enclosed (fun _ => rfl) (fun _ => rfl) (bracketed_flatMap hbracketed)] at hroom
    -- The brackets are one level of nesting, so there is room for them and `inner` more.
    obtain ⟨inner, rfl⟩ : ∃ inner, _ = inner + 1 := ⟨_, (Nat.sub_add_cancel (by omega)).symm⟩
    have hread : ∀ v ∈ items, Reads (fun _ => True) (value constant inner) v.tokens v := by
      intro v hv
      have hle := nesting_le_flatMap hbracketed hv
      exact (h v hv).reads (by omega)
    have hmany := reads_many (fun v hv => (h v hv).opens) hread
      (.punct ']' :: rest) ⟨trivial, rfl⟩
    rw [List.map_id'] at hmany
    rw [List.cons_append, List.append_assoc, List.singleton_append, value_list hmany]

theorem readable_object {entries : List (String × Value)} (hsorted : Sorted.Ascending entries)
    (hnames : ∀ e ∈ entries, isName e.1.toList = true)
    (h : ∀ e ∈ entries, e.2.Readable constant) : (Value.object entries).Readable constant := by
  refine ⟨?_, ⟨_, _, rfl, rfl, trivial⟩, fun hroom => ?_⟩
  · rw [tokens_object]
    exact lexes_object Value.tokens hnames fun e he => (h e he).lexes
  have hread := reads_object (fun _ e he hle => (h e he).reads hle) hroom
  rwa [Sorted.ofList_of_ascending hsorted] at hread

theorem Value.Regular.readable {v : Value} (h : v.Regular constant) : v.Readable constant := by
  induction h with
  | var hconstant hname => exact readable_variable hconstant hname
  | int hfits => exact readable_int hfits
  | text s => exact readable_text s
  | bool b => exact readable_bool b
  | null => exact readable_null
  | enum hname henum => exact readable_enum hname henum
  | list _ ih => exact readable_list ih
  | object hsorted hnames _ ih => exact readable_object hsorted hnames ih

end Readable

def bangTokens (nonNull : Bool) : List Token := if nonNull then [.punct '!'] else []

def TypeRef.tokens : TypeRef → List Token
  | .named name nonNull => .name name :: bangTokens nonNull
  | .list item nonNull => .punct '[' :: (item.tokens ++ [.punct ']']) ++ bangTokens nonNull

def TypeRef.Regular : TypeRef → Prop
  | .named name _ => isName name.toList = true
  | .list item _ => item.Regular

theorem Lexes.bang {cs : List Char} {ts : List Token} (h : Lexes cs ts) (nonNull : Bool) :
    Lexes (cs ++ if nonNull then ['!'] else []) (ts ++ bangTokens nonNull) := by
  cases nonNull with
  | true => exact h.append (lexes_nil.punct (by decide)) (by simp [endsNumber, isPunct])
  | false => simpa [bangTokens] using h

theorem TypeRef.Regular.lexes {t : TypeRef} (h : t.Regular) : Lexes t.render.toList t.tokens := by
  induction t with
  | named name nonNull =>
    have hbang := (lexes_name h).bang nonNull
    cases nonNull <;> simpa [TypeRef.render, TypeRef.tokens] using hbang
  | list item nonNull ih =>
    have hbang := ((ih h).enclosed '[' ']' (by decide) (by decide)).bang nonNull
    cases nonNull <;> simpa [TypeRef.render, TypeRef.tokens] using hbang

theorem bracketed_bangTokens (nonNull : Bool) :
    Bracketed (bangTokens nonNull) ∧ nesting (bangTokens nonNull) = 0 := by
  cases nonNull with
  | true => exact ⟨bracketed_single fun _ => rfl, rfl⟩
  | false => exact ⟨bracketed_nil, rfl⟩

theorem TypeRef.bracketed (t : TypeRef) : Bracketed t.tokens := by
  induction t with
  | named name nonNull => exact (bracketed_bangTokens nonNull).1.cons fun _ => rfl
  | list item nonNull ih =>
    exact (ih.enclosed (fun _ => rfl) fun _ => rfl).append (bracketed_bangTokens nonNull).1

theorem reads_bang (nonNull : Bool) :
    Reads (notAt ['!'] · = true) bang (bangTokens nonNull) nonNull := by
  intro rest hrest
  cases nonNull with
  | true => rfl
  | false =>
    have hnext : atPunct '!' rest.head? = false := atPunct_of_notAt hrest List.mem_cons_self
    rw [bangTokens, if_neg (by decide), List.nil_append, Sdl.bang, bind_ok (next_apply rest), hnext]
    rfl

theorem TypeRef.reads (t : TypeRef) {room : Nat} (hroom : nesting t.tokens ≤ room) :
    Reads (notAt ['!'] · = true) (typeRef room) t.tokens t := by
  induction t generalizing room with
  | named name nonNull =>
    intro rest hrest
    rw [TypeRef.tokens, List.cons_append, typeRef, map_ok (reads_bang nonNull rest hrest)]
  | list item nonNull ih =>
    have hinner := item.bracketed
    rw [TypeRef.tokens, (hinner.enclosed (fun _ => rfl) fun _ => rfl).nesting_append,
      nesting_enclosed (fun _ => rfl) (fun _ => rfl) hinner] at hroom
    obtain ⟨inner, rfl⟩ : ∃ inner, room = inner + 1 := ⟨room - 1, by omega⟩
    intro rest hrest
    have hitem := @ih inner (by omega) (.punct ']' :: (bangTokens nonNull ++ rest)) rfl
    rw [TypeRef.tokens, List.append_assoc, List.cons_append, List.append_assoc,
      List.singleton_append, typeRef, if_pos rfl, bind_ok hitem, bind_ok (punct_cons ']' _),
      bind_ok (reads_bang nonNull rest hrest)]
    rfl

end SchemaGraph.Sdl
