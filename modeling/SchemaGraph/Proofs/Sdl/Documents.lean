import SchemaGraph.Proofs.Keyed
import SchemaGraph.Proofs.Sdl.Accepted
import SchemaGraph.Proofs.Sdl.Declarations
import SchemaGraph.Proofs.Sdl.Rereading
import SchemaGraph.Text.Blank

/-! Documents that are read from a text: what is well-formed about them, and how deep the brackets
are nested when they are written out again. A text that holds a document is not blank. -/

namespace SchemaGraph.Sdl

open Reader

/-! Values -/

theorem nesting_reread_float (x : Binary64) : nesting (Value.float x).reread.tokens = 0 := by
  rw [Value.reread]
  unfold Binary64.reread
  split
  · rfl
  · split
    · rfl
    · split <;> rfl

theorem nesting_reread_list {items : List Value} {room : Nat}
    (h : ∀ v ∈ items, nesting v.reread.tokens ≤ room) :
    nesting (Value.list items).reread.tokens ≤ room + 1 := by
  have hbracketed : ∀ v ∈ items, Bracketed v.reread.tokens := fun v _ => v.reread.bracketed
  rw [reread_list, tokens_list, List.flatMap_map,
    nesting_enclosed (fun _ => rfl) (fun _ => rfl) (bracketed_flatMap hbracketed)]
  exact Nat.succ_le_succ (nesting_flatMap_le hbracketed h)

theorem nesting_reread_object {entries : List (String × Value)} {room : Nat}
    (h : ∀ e ∈ entries, nesting e.2.reread.tokens ≤ room) :
    nesting (Value.object entries).reread.tokens ≤ room + 1 := by
  have hbracketed : ∀ e ∈ entries, Bracketed (namedTokens (e.1, e.2.reread)) := fun e _ =>
    (bracketed_namedTokens _).1
  rw [reread_object, tokens_object, List.flatMap_map,
    nesting_enclosed (fun _ => rfl) (fun _ => rfl) (bracketed_flatMap hbracketed)]
  refine Nat.succ_le_succ (nesting_flatMap_le hbracketed fun e he => ?_)
  rw [(bracketed_namedTokens _).2]
  exact h e he

theorem formed_nameValue {constant : Bool} {s : String} (h : isName s.toList = true) :
    (nameValue s).Formed constant ∧ nesting (nameValue s).reread.tokens = 0 := by
  by_cases htrue : s = "true"
  · rw [nameValue, if_pos htrue]
    exact ⟨.bool true, rfl⟩
  by_cases hfalse : s = "false"
  · rw [nameValue, if_neg htrue, if_pos hfalse]
    exact ⟨.bool false, rfl⟩
  by_cases hnull : s = "null"
  · rw [nameValue, if_neg htrue, if_neg hfalse, if_pos hnull]
    exact ⟨.null, rfl⟩
  have henum : nameValue s = .enum s := by
    rw [nameValue, if_neg htrue, if_neg hfalse, if_neg hnull]
  rw [henum]
  exact ⟨.enum h henum, rfl⟩

/-- A value takes no more brackets than may be opened, also when it is written out again. -/
def Value.Fits (constant : Bool) (room : Nat) (v : Value) : Prop :=
  v.Formed constant ∧ nesting v.reread.tokens ≤ room

theorem yields_entry {constant : Bool} {room : Nat}
    (h : Yields (Value.Fits constant room) (value constant room)) :
    Yields (fun e => isName e.1.toList = true ∧ e.2.Fits constant room)
      (entry constant room) := by
  refine yields_name.bind fun s hs => (yields_punct ':').bind fun _ _ => ?_
  exact h.bind fun v hv => .pure ⟨hs, hv⟩

theorem yields_list {constant : Bool} {room : Nat}
    (h : Yields (Value.Fits constant room) (value constant room)) :
    Yields (Value.Fits constant (room + 1)) (do
      let vs ← many (startsValue constant) (value constant room)
      punct ']'
      pure (.list vs)) := by
  refine (h.many _).bind fun vs hvs => (yields_punct ']').bind fun _ _ => .pure ⟨?_, ?_⟩
  · exact .list fun v hv => (hvs v hv).1
  · exact nesting_reread_list fun v hv => (hvs v hv).2

theorem yields_object {constant : Bool} {room : Nat}
    (h : Yields (Value.Fits constant room) (value constant room)) :
    Yields (Value.Fits constant (room + 1)) (do
      let es ← many startsWithName (entry constant room)
      punct '\x7d'
      pure (.object (Sorted.ofList es))) := by
  refine ((yields_entry h).many _).bind fun es hes => (yields_punct '\x7d').bind fun _ _ => .pure ?_
  have hsorted : ∀ e ∈ Sorted.ofList es, isName e.1.toList = true ∧ e.2.Fits constant room :=
    fun e he => hes e (Sorted.mem_of_mem_ofList he)
  constructor
  · exact .object (Sorted.ascending_ofList es) (fun e he => (hsorted e he).1) fun e he =>
      (hsorted e he).2.1
  · exact nesting_reread_object fun e he => (hsorted e he).2.2

theorem yields_bracketless {constant : Bool} {room : Nat} {c : Char} {ts rest : List Token}
    {v : Value} (hts : ∀ t ∈ ts, t.Formed) (h : value.bracketless constant c ts = .ok (v, rest)) :
    v.Fits constant room ∧ Leaves ts rest := by
  unfold value.bracketless at h
  split at h
  · rename_i hc
    have hvariable : Yields (Value.Fits constant room) (Value.variable <$> name) :=
      yields_name.map fun s hs => ⟨.var (by simpa using hc.2) hs, Nat.zero_le room⟩
    exact hvariable ts v rest hts h
  · cases h

theorem yields_value_step {constant : Bool} {room : Nat}
    (h : ∀ inner, room = inner + 1 → Yields (Value.Fits constant inner) (value constant inner)) :
    Yields (Value.Fits constant room) (value constant room) := by
  intro ts v rest hts hv
  rw [value.eq_def] at hv
  split at hv
  · cases hv
    obtain ⟨hformed, hnesting⟩ := @formed_nameValue constant _ (hts _ List.mem_cons_self)
    exact ⟨⟨hformed, by omega⟩, .cons Token.noConfusion _⟩
  · cases hv
    exact ⟨⟨.int (hts _ List.mem_cons_self), Nat.zero_le room⟩, .cons Token.noConfusion _⟩
  · cases hv
    have hnesting := nesting_reread_float ‹Binary64›
    exact ⟨⟨.float (hts _ List.mem_cons_self), by omega⟩, .cons Token.noConfusion _⟩
  · cases hv
    exact ⟨⟨.text _, Nat.zero_le room⟩, .cons Token.noConfusion _⟩
  · obtain ⟨hfits, hleft⟩ := yields_bracketless (List.forall_mem_cons.1 hts).2 hv
    exact ⟨hfits, (Leaves.cons Token.noConfusion _).trans hleft⟩
  · rename_i inner c ts
    have hts := (List.forall_mem_cons.1 hts).2
    have htaken : Leaves (.punct c :: ts) ts := .cons Token.noConfusion ts
    split at hv
    · obtain ⟨hfits, hleft⟩ := yields_list (h inner rfl) ts v rest hts hv
      exact ⟨hfits, htaken.trans hleft⟩
    · split at hv
      · obtain ⟨hfits, hleft⟩ := yields_object (h inner rfl) ts v rest hts hv
        exact ⟨hfits, htaken.trans hleft⟩
      · obtain ⟨hfits, hleft⟩ := yields_bracketless hts hv
        exact ⟨hfits, htaken.trans hleft⟩
  · cases hv

theorem yields_value (constant : Bool) (room : Nat) :
    Yields (Value.Fits constant room) (value constant room) := by
  induction room with
  | zero => exact yields_value_step fun _ hinner => nomatch hinner
  | succ room ih => exact yields_value_step fun _ hinner => Nat.succ.inj hinner ▸ ih

/-! Types -/

theorem yields_bang : Yields (fun _ => True) bang := by
  refine yields_next.bind fun t _ => ?_
  split
  · exact (yields_punct '!').bind fun _ _ => .pure trivial
  · exact .pure trivial

theorem nesting_list (item : TypeRef) (nonNull : Bool) :
    nesting (TypeRef.list item nonNull).tokens = nesting item.tokens + 1 := by
  obtain ⟨hbang, hzero⟩ := bracketed_bangTokens nonNull
  rw [TypeRef.tokens, (item.bracketed.enclosed (fun _ => rfl) fun _ => rfl).nesting_append,
    nesting_enclosed (fun _ => rfl) (fun _ => rfl) item.bracketed, hzero, Nat.max_zero]

theorem nesting_named (name : String) (nonNull : Bool) :
    nesting (TypeRef.named name nonNull).tokens = 0 := by
  rw [TypeRef.tokens, nesting_cons rfl, (bracketed_bangTokens nonNull).2]

def TypeRef.Fits (room : Nat) (t : TypeRef) : Prop := t.Regular ∧ nesting t.tokens ≤ room

theorem yields_typeRef_step {room : Nat}
    (h : ∀ inner, room = inner + 1 → Yields (TypeRef.Fits inner) (typeRef inner)) :
    Yields (TypeRef.Fits room) (typeRef room) := by
  intro ts t rest hts ht
  rw [typeRef.eq_def] at ht
  split at ht
  · rename_i s ts
    obtain ⟨hname, hts⟩ := List.forall_mem_cons.1 hts
    have hnamed : Yields (TypeRef.Fits room) (TypeRef.named s <$> bang) := by
      refine yields_bang.map fun nonNull _ => ⟨hname, ?_⟩
      rw [nesting_named]
      exact Nat.zero_le room
    obtain ⟨hfits, hleft⟩ := hnamed ts t rest hts ht
    exact ⟨hfits, (Leaves.cons Token.noConfusion ts).trans hleft⟩
  · rename_i inner c ts
    split at ht
    · have hlist : Yields (TypeRef.Fits (inner + 1)) (do
          let item ← typeRef inner
          punct ']'
          let nonNull ← bang
          pure (.list item nonNull)) := by
        refine (h inner rfl).bind fun item hitem => (yields_punct ']').bind fun _ _ => ?_
        refine yields_bang.bind fun nonNull _ => .pure ⟨hitem.1, ?_⟩
        rw [nesting_list]
        exact Nat.succ_le_succ hitem.2
      obtain ⟨hfits, hleft⟩ := hlist ts t rest (List.forall_mem_cons.1 hts).2 ht
      exact ⟨hfits, (Leaves.cons Token.noConfusion ts).trans hleft⟩
    · cases ht
  · cases ht

theorem yields_typeRef (room : Nat) : Yields (TypeRef.Fits room) (typeRef room) := by
  induction room with
  | zero => exact yields_typeRef_step fun _ hinner => nomatch hinner
  | succ room ih => exact yields_typeRef_step fun _ hinner => Nat.succ.inj hinner ▸ ih

/-! Declarations -/

def Directive.reread (d : Directive) : Directive :=
  ⟨d.name, (Keyed.ofList d.arguments).entries.map fun e => (e.1, e.2.reread)⟩

def Argument.reread (a : Argument) : Argument :=
  ⟨none, a.name, a.type, a.default.map Value.reread, []⟩

def TypeRef.reread : TypeRef → TypeRef
  | .list (.named name _) nonNull => .list (.named name false) nonNull
  | t => t

def FieldDeclaration.reread (f : FieldDeclaration) : FieldDeclaration :=
  ⟨f.description, f.name, f.arguments.map Argument.reread, f.type.reread,
    f.directives.map Directive.reread⟩

def TypeDeclaration.reread (d : TypeDeclaration) : TypeDeclaration :=
  ⟨d.description, d.kind, d.name, d.directives.map Directive.reread,
    d.fields.map FieldDeclaration.reread⟩

structure Directive.Formed (d : Directive) : Prop where
  name : isName d.name.toList = true
  arguments : ∀ e ∈ d.arguments, isName e.1.toList = true ∧ e.2.Formed false

structure Argument.Formed (a : Argument) : Prop where
  name : isName a.name.toList = true
  type : a.type.Regular
  default : ∀ v ∈ a.default, v.Formed true

structure FieldDeclaration.Formed (f : FieldDeclaration) : Prop where
  name : isName f.name.toList = true
  arguments : ∀ a ∈ f.arguments, a.Formed
  type : f.type.Regular
  directives : ∀ d ∈ f.directives, d.Formed

structure TypeDeclaration.Formed (d : TypeDeclaration) : Prop where
  name : isName d.name.toList = true
  directives : ∀ a ∈ d.directives, a.Formed
  fields : ∀ f ∈ d.fields, f.Formed

def Directive.Fits (room : Nat) (d : Directive) : Prop :=
  d.Formed ∧ nesting d.reread.tokens ≤ room

def Argument.Fits (room : Nat) (a : Argument) : Prop := a.Formed ∧ nesting a.reread.tokens ≤ room

def FieldDeclaration.Fits (room : Nat) (f : FieldDeclaration) : Prop :=
  f.Formed ∧ nesting f.reread.tokens ≤ room

def TypeDeclaration.Fits (room : Nat) (d : TypeDeclaration) : Prop :=
  d.Formed ∧ nesting d.reread.tokens ≤ room

theorem fits_group {α : Type} (left right : Char) {cut : α → List Token} {P : α → Prop}
    {room : Nat} {group : Option (List α)} (hleft : ∀ n, openAfter n (.punct left) = n + 1)
    (hright : ∀ n, openAfter (n + 1) (.punct right) = n) (hcut : ∀ x, Bracketed (cut x))
    (h : ∀ xs ∈ group, ∃ inner, room = inner + 1 ∧ ∀ x ∈ xs, P x ∧ nesting (cut x) ≤ inner) :
    (∀ x ∈ group.getD [], P x) ∧ nesting (groupTokens left right cut (group.getD [])) ≤ room := by
  rcases group with _ | xs
  · exact ⟨fun _ hx => absurd hx List.not_mem_nil, Nat.zero_le room⟩
  · obtain ⟨inner, rfl, hxs⟩ := h xs rfl
    refine ⟨fun x hx => (hxs x hx).1, ?_⟩
    exact nesting_groupTokens_le hleft hright (fun x _ => hcut x) fun x hx => (hxs x hx).2

theorem yields_directive (room : Nat) : Yields (Directive.Fits room) (directive room) := by
  have hentries := Yields.enclosed '(' ')' fun room =>
    (yields_entry (yields_value false room)).many1 startsWithName
  refine (yields_punct '@').bind fun _ _ => yields_name.bind fun s hs => ?_
  refine (hentries room).maybe.bind fun arguments harguments => .pure ?_
  rcases arguments with _ | es
  · exact ⟨⟨hs, fun _ he => absurd he List.not_mem_nil⟩, Nat.zero_le room⟩
  · obtain ⟨inner, rfl, hes⟩ := harguments es rfl
    have hkept : (Keyed.ofList es).All fun _ v => v.Fits false inner :=
      Keyed.all_ofList fun e he => (hes e he).2
    refine ⟨⟨hs, fun e he => ⟨(hes e he).1, (hes e he).2.1⟩⟩, ?_⟩
    rw [Directive.tokens, nesting_cons rfl, nesting_cons rfl]
    refine nesting_groupTokens_le (fun _ => rfl) (fun _ => rfl)
      (fun e _ => (bracketed_namedTokens e).1) (List.forall_mem_map.2 fun e he => ?_)
    rw [(bracketed_namedTokens _).2]
    exact (hkept e he).2

theorem yields_directives (room : Nat) :
    Yields (fun ds => ∀ d ∈ ds, d.Fits room) (directives room) :=
  (yields_directive room).many _

theorem nesting_directives {room : Nat} {ds : List Directive} (h : ∀ d ∈ ds, d.Fits room) :
    nesting ((ds.map Directive.reread).flatMap Directive.tokens) ≤ room := by
  rw [List.flatMap_map]
  exact nesting_flatMap_le (fun d _ => d.reread.bracketed) fun d hd => (h d hd).2

theorem yields_text : Yields (fun _ => True) text := by
  intro ts _ rest _ h
  unfold text at h
  split at h
  · cases h
    exact ⟨trivial, .cons Token.noConfusion rest⟩
  · cases h

theorem yields_description : Yields (fun _ => True) description :=
  yields_text.maybe.imp fun _ _ => trivial

theorem yields_argument (room : Nat) : Yields (Argument.Fits room) (argument room) := by
  have hdefault : Yields (Value.Fits true room) (do punct '='; value true room) :=
    (yields_punct '=').bind fun _ _ => yields_value true room
  refine yields_description.bind fun d _ => yields_name.bind fun s hs => ?_
  refine (yields_punct ':').bind fun _ _ => (yields_typeRef room).bind fun t ht => ?_
  refine hdefault.maybe.bind fun v hv => (yields_directives room).bind fun ds _ => ?_
  refine .pure ⟨⟨hs, ht.1, fun w hw => (hv w hw).1⟩, ?_⟩
  rw [Argument.nesting_tokens]
  refine Nat.max_le.2 ⟨ht.2, ?_⟩
  rcases v with _ | w
  · exact Nat.zero_le room
  · exact (hv w rfl).2

theorem yields_arguments (room : Nat) :
    Yields (fun as => (∀ a ∈ as, a.Formed) ∧
      nesting (argumentTokens (as.map Argument.reread)) ≤ room) (arguments room) := by
  have hgroup := Yields.enclosed '(' ')' fun room =>
    (yields_argument room).many1 startsDescribed
  refine (hgroup room).maybe.bind fun as has => .pure ?_
  rw [argumentTokens, groupTokens_map fun _ _ => rfl]
  exact fits_group '(' ')' (fun _ => rfl) (fun _ => rfl) (fun a => a.reread.bracketed) has

theorem nesting_reread_type (t : TypeRef) : nesting t.reread.tokens = nesting t.tokens := by
  rcases t with _ | ⟨_ | _, _⟩
  · rfl
  · rw [TypeRef.reread, nesting_list, nesting_list, nesting_named, nesting_named]
  · rfl

theorem yields_field (room : Nat) : Yields (FieldDeclaration.Fits room) (field room) := by
  refine yields_description.bind fun d _ => yields_name.bind fun s hs => ?_
  refine (yields_arguments room).bind fun as has => (yields_punct ':').bind fun _ _ => ?_
  refine (yields_typeRef room).bind fun t ht => (yields_directives room).bind fun ds hds => ?_
  refine .pure ⟨⟨hs, has.1, ht.1, fun d hd => (hds d hd).1⟩, ?_⟩
  rw [FieldDeclaration.nesting_tokens, Nat.max_le, Nat.max_le]
  refine ⟨has.2, ?_, nesting_directives hds⟩
  exact (nesting_reread_type t).trans_le ht.2

theorem Yields.body {α : Type} {P : Nat → α → Prop} {item : Nat → Reader α}
    (h : ∀ room, Yields (P room) (item room)) (room : Nat) :
    Yields (fun xs => ∀ as ∈ xs, ∃ inner, room = inner + 1 ∧ ∀ a ∈ as, P inner a)
      (body item room) :=
  (Yields.enclosed _ _ (fun room => (h room).many1 _) room).maybe

theorem yields_interfaces : Yields (fun _ => True) interfaces := by
  refine yields_next.bind fun t _ => ?_
  split
  · refine (yields_word "implements").bind fun _ _ => ?_
    refine (yields_punct '&').maybe.bind fun _ _ => yields_name.separated.imp fun _ _ => trivial
  · exact .pure trivial

theorem yields_typeDeclaration (room : Nat) (description : Option String) (kind : TypeKind) :
    Yields (fun r => r.1.Fits room) (typeDeclaration room description kind) := by
  refine yields_name.bind fun s hs => yields_interfaces.bind fun is _ => ?_
  refine (yields_directives room).bind fun ds hds => (Yields.body yields_field room).bind ?_
  intro fs hfs
  obtain ⟨hformed, hnesting⟩ := fits_group '\x7b' '\x7d' (fun _ => rfl)
    (fun _ => rfl) (fun f => f.reread.bracketed) hfs
  refine .pure ⟨⟨hs, fun d hd => (hds d hd).1, hformed⟩, ?_⟩
  rw [TypeDeclaration.nesting_tokens]
  refine Nat.max_le.2 ⟨nesting_directives hds, ?_⟩
  rwa [TypeDeclaration.reread, fieldTokens, groupTokens_map fun _ _ => rfl]

/-! Definitions -/

theorem yields_scalarRest (room : Nat) : Yields (fun _ => True) (scalarRest room) :=
  yields_name.bind fun _ _ => (yields_directives room).bind fun _ _ => .pure trivial

theorem yields_unionRest (room : Nat) : Yields (fun _ => True) (unionRest room) := by
  refine yields_name.bind fun _ _ => (yields_directives room).bind fun _ _ => ?_
  refine Yields.bind (Yields.maybe (P := fun _ => True) ?_) fun _ _ => .pure trivial
  refine (yields_punct '=').bind fun _ _ => (yields_punct '|').maybe.bind fun _ _ => ?_
  exact yields_name.separated.imp fun _ _ => trivial

theorem yields_enumValue (room : Nat) : Yields (fun _ => True) (enumValue room) := by
  refine yields_description.bind fun _ _ => yields_name.bind fun _ _ => ?_
  exact (yields_directives room).bind fun _ _ => .pure trivial

theorem yields_enumRest (room : Nat) : Yields (fun _ => True) (enumRest room) := by
  refine yields_name.bind fun _ _ => (yields_directives room).bind fun _ _ => ?_
  exact (Yields.body yields_enumValue room).bind fun _ _ => .pure trivial

theorem yields_inputRest (room : Nat) : Yields (fun _ => True) (inputRest room) := by
  refine yields_name.bind fun _ _ => (yields_directives room).bind fun _ _ => ?_
  exact (Yields.body yields_argument room).bind fun _ _ => .pure trivial

theorem yields_location : Yields (fun _ => True) location := by
  intro ts _ rest _ h
  unfold location at h
  split at h
  · split at h
    · cases h
      exact ⟨trivial, .cons Token.noConfusion rest⟩
    · cases h
  · cases h

theorem yields_directiveRest (room : Nat) : Yields (fun _ => True) (directiveRest room) := by
  refine (yields_punct '@').bind fun _ _ => yields_name.bind fun _ _ => ?_
  refine (yields_arguments room).bind fun _ _ => (yields_word _).maybe.bind fun _ _ => ?_
  refine (yields_word "on").bind fun _ _ => ?_
  refine Yields.bind (Yields.maybe (P := fun _ => True) ?_) fun _ _ => .pure trivial
  refine (yields_punct '|').maybe.bind fun _ _ => ?_
  exact yields_location.separated.imp fun _ _ => trivial

theorem yields_typeExtension (room : Nat) (kind : TypeKind) :
    Yields (fun _ => True) (typeExtension room kind) :=
  (yields_typeDeclaration room none kind).bind fun _ _ => .pure trivial

theorem yields_guard {α : Type} {start : List Token} (b : Bool) (a : α) :
    Yields (fun _ => True) (if b then pure a else throw start : Reader α) := by
  cases b with
  | true => exact .pure trivial
  | false => exact .throw start

theorem yields_schemaBlock (room : Nat) : Yields (fun _ => True) (schemaBlock room) := by
  have hoperation : Yields (fun _ => True) (do
      let n ← name
      punct ':'
      let _ ← name
      pure n) := by
    refine yields_name.bind fun _ _ => (yields_punct ':').bind fun _ _ => ?_
    exact yields_name.bind fun _ _ => .pure trivial
  refine yields_rest.bind fun start _ => (yields_word "schema").bind fun _ _ => ?_
  refine (yields_directives room).bind fun _ _ => ?_
  have hblock := Yields.enclosed '\x7b' '\x7d' fun _ =>
    hoperation.many startsWithName
  exact (hblock room).bind fun names _ => yields_guard _ _

theorem yields_extension (room : Nat) : Yields (fun _ => True) (extension room) := by
  refine (yields_word "extend").bind fun _ _ => yields_rest.bind fun start _ => ?_
  refine yields_name.bind fun keyword _ => ?_
  split
  · exact (yields_scalarRest room).bind fun _ _ => yields_guard _ _
  · exact (yields_typeExtension room .object).bind fun _ _ => yields_guard _ _
  · exact (yields_typeExtension room .interface).bind fun _ _ => yields_guard _ _
  · exact (yields_unionRest room).bind fun _ _ => yields_guard _ _
  · exact (yields_enumRest room).bind fun _ _ => yields_guard _ _
  · exact (yields_inputRest room).bind fun _ _ => yields_guard _ _
  · exact (Yields.throw (P := fun _ => True) start).bind fun _ _ => yields_guard _ _

def Definition.Fits (room : Nat) : Definition → Prop
  | .type d => d.Fits room
  | _ => True

theorem yields_described (room : Nat) (description : Option String) :
    Yields (Definition.Fits room) (described room description) := by
  refine yields_rest.bind fun start _ => yields_name.bind fun keyword _ => ?_
  split
  · exact (yields_typeDeclaration room description .object).map fun _ h => h
  · exact (yields_typeDeclaration room description .interface).map fun _ h => h
  · exact (yields_scalarRest room).map fun _ _ => trivial
  · exact (yields_unionRest room).map fun _ _ => trivial
  · exact (yields_enumRest room).map fun _ _ => trivial
  · exact (yields_inputRest room).map fun _ _ => trivial
  · exact (yields_directiveRest room).map fun _ _ => trivial
  · exact .throw start

theorem yields_definition (room : Nat) : Yields (Definition.Fits room) (definition room) := by
  refine yields_next.bind fun t _ => ?_
  split
  · exact (yields_schemaBlock room).map fun _ _ => trivial
  split
  · exact (yields_extension room).map fun _ _ => trivial
  · exact yields_description.bind fun d _ => yields_described room d

theorem document_spec {cs : List Char} {ds : Document} (h : document (tokens cs) = .ok ds) :
    .bad ∉ tokens cs ∧ ∀ d ∈ ds, d.Fits nestingLimit := by
  unfold document at h
  split at h
  · cases h
  · rename_i ds' rest hmany
    cases h
    obtain ⟨hds, hleft⟩ := (yields_definition nestingLimit).many1 _ _ _ _ (formed_tokens cs) hmany
    -- Definitions are read for as long as any token follows.
    rcases rest with _ | ⟨t, rest⟩
    · exact ⟨hleft.not_mem_bad, hds⟩
    · exact nomatch head?_of_many1 hmany

theorem document_of_ofText {cs : List Char} {ds : Document} (h : Document.ofText cs = .ok ds) :
    document (tokens cs) = .ok ds := by
  unfold Document.ofText at h
  dsimp only at h
  split at h
  · cases h
    assumption
  · cases h

theorem token_of_isBlank {c : Char} (h : Text.isBlank c = true) (r : List Char) :
    (token c r).1 = .bad := by
  have hnat := Text.toNat_of_isBlank h
  have hne : ∀ d : Char, 0x20 < d.toNat → d.toNat < 0x85 → c ≠ d := by
    rintro d hlow hhigh rfl
    omega
  have hrange : ∀ low high : Char, 0x20 < low.toNat → high.toNat < 0x85 →
      (decide (low ≤ c) && decide (c ≤ high)) = false := by
    intro low high hlow hhigh
    rw [Bool.and_eq_false_iff, decide_eq_false_iff_not, decide_eq_false_iff_not, Char.le_def,
      Char.le_def, UInt32.le_iff_toNat_le, UInt32.le_iff_toNat_le]
    show ¬low.toNat ≤ c.toNat ∨ ¬c.toNat ≤ high.toNat
    omega
  have hpunct : isPunct c = false := by simp [isPunct, hne]
  have hname : isNameStart c = false := by simp [isNameStart, isLetter, hne, hrange]
  have hnumber : isNumberStart c = false := by
    have hdigit : c.isDigit = false := hrange '0' '9' (by decide) (by decide)
    simp [isNumberStart, hne, hdigit]
  unfold token
  rw [hpunct, hname, hnumber]
  simp only [Bool.false_eq_true, if_false]
  split
  · exact absurd rfl (hne '.' (by decide) (by decide))
  · exact absurd rfl (hne '"' (by decide) (by decide))
  · exact absurd rfl (hne '"' (by decide) (by decide))
  · rfl

theorem tokens_of_isBlank {cs : List Char} (h : cs.all Text.isBlank = true) :
    tokens cs = [] ∨ .bad ∈ tokens cs := by
  rw [tokens_eq]
  cases hgap : (gap false cs).2 with
  | nil => exact .inl rfl
  | cons c r =>
    have hmem : c ∈ cs := by
      rw [← gap_append false cs, hgap]
      exact List.mem_append_right _ List.mem_cons_self
    refine .inr (List.mem_cons.2 (.inl ?_))
    exact (token_of_isBlank (List.all_eq_true.1 h c hmem) r).symm

theorem isAllBlank_eq_false_of_ofText {s : String} {ds : Document}
    (h : Document.ofText s.toList = .ok ds) : Text.isAllBlank s = false := by
  have hdocument := document_of_ofText h
  rw [← Bool.not_eq_true]
  intro hblank
  rcases tokens_of_isBlank hblank with hnil | hbad
  · rw [hnil] at hdocument
    cases hdocument
  · exact (document_spec hdocument).1 hbad

end SchemaGraph.Sdl
