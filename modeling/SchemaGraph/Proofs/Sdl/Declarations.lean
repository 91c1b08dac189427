import SchemaGraph.Proofs.Sdl.Literals

/-! Declarations that are read back from their tokens. -/

namespace SchemaGraph.Sdl

open Reader

variable {α : Type}

def groupTokens (left right : Char) (cut : α → List Token) : List α → List Token
  | [] => []
  | x :: xs => .punct left :: ((x :: xs).flatMap cut ++ [.punct right])

def nonEmpty? : List α → Option (List α)
  | [] => none
  | x :: xs => some (x :: xs)

@[simp] theorem getD_nonEmpty? (xs : List α) : (nonEmpty? xs).getD [] = xs := by
  cases xs <;> rfl

theorem groupTokens_map {β : Type} {left right : Char} {cut : α → List Token}
    {cut' : β → List Token} {f : β → α} {xs : List β} (h : ∀ x ∈ xs, cut (f x) = cut' x) :
    groupTokens left right cut (xs.map f) = groupTokens left right cut' xs := by
  have hmap : (xs.map f).map cut = xs.map cut' := by
    rw [List.map_map]
    exact List.map_congr_left h
  rcases xs with _ | ⟨x, xs⟩
  · rfl
  · rw [groupTokens, List.flatMap_def, ← hmap]
    rfl

theorem subset_groupTokens {left right : Char} {cut : α → List Token} {xs : List α} {x : α}
    (hx : x ∈ xs) : cut x ⊆ groupTokens left right cut xs := by
  obtain ⟨y, ys, rfl⟩ := List.exists_cons_of_ne_nil (List.ne_nil_of_mem hx)
  intro t ht
  refine List.mem_cons_of_mem _ (List.mem_append_left _ ?_)
  exact List.mem_flatMap.2 ⟨x, hx, ht⟩

def defaultTokens : Option Value → List Token
  | some v => .punct '=' :: v.tokens
  | none => []

def descriptionTokens : Option String → List Token
  | some s => [.text s]
  | none => []

def Directive.tokens (d : Directive) : List Token :=
  .punct '@' :: .name d.name :: groupTokens '(' ')' namedTokens d.arguments

def Argument.tokens (a : Argument) : List Token :=
  .name a.name :: .punct ':' :: (a.type.tokens ++ defaultTokens a.default)

def argumentTokens : List Argument → List Token := groupTokens '(' ')' Argument.tokens

def FieldDeclaration.tokens (f : FieldDeclaration) : List Token :=
  descriptionTokens f.description ++ .name f.name ::
    (argumentTokens f.arguments ++ .punct ':' ::
      (f.type.tokens ++ f.directives.flatMap Directive.tokens))

def fieldTokens : List FieldDeclaration → List Token :=
  groupTokens '\x7b' '\x7d' FieldDeclaration.tokens

def TypeDeclaration.tokens (d : TypeDeclaration) : List Token :=
  descriptionTokens d.description ++ .name d.kind.keyword :: .name d.name ::
    (d.directives.flatMap Directive.tokens ++ fieldTokens d.fields)

structure Directive.Regular (d : Directive) : Prop where
  name : isName d.name.toList = true
  arguments : ∀ e ∈ d.arguments, isName e.1.toList = true ∧ e.2.Readable false
  distinct : (d.arguments.map Prod.fst).Nodup

/-- What is lost when an argument is written out is not there. -/
structure Argument.Regular (a : Argument) : Prop where
  description : a.description = none
  name : isName a.name.toList = true
  type : a.type.Regular
  default : ∀ v ∈ a.default, v.Readable true
  directives : a.directives = []

structure FieldDeclaration.Regular (f : FieldDeclaration) : Prop where
  name : isName f.name.toList = true
  arguments : ∀ a ∈ f.arguments, a.Regular
  type : f.type.Regular
  directives : ∀ d ∈ f.directives, d.Regular

structure TypeDeclaration.Regular (d : TypeDeclaration) : Prop where
  name : isName d.name.toList = true
  directives : ∀ a ∈ d.directives, a.Regular
  fields : ∀ f ∈ d.fields, f.Regular

section Group

variable {left right : Char} {cut : α → List Token} {xs : List α}
  (hleft : ∀ n, openAfter n (.punct left) = n + 1)
  (hright : ∀ n, openAfter (n + 1) (.punct right) = n)
  (hcut : ∀ x ∈ xs, Bracketed (cut x))
include hleft hright hcut

theorem bracketed_groupTokens : Bracketed (groupTokens left right cut xs) := by
  cases xs with
  | nil => exact bracketed_nil
  | cons x xs => exact (bracketed_flatMap hcut).enclosed hleft hright

theorem nesting_groupTokens_le {room : Nat} (hroom : ∀ x ∈ xs, nesting (cut x) ≤ room) :
    nesting (groupTokens left right cut xs) ≤ room + 1 := by
  cases xs with
  | nil => exact Nat.zero_le _
  | cons x xs =>
    rw [groupTokens, nesting_enclosed hleft hright (bracketed_flatMap hcut)]
    exact Nat.succ_le_succ (nesting_flatMap_le hcut hroom)

theorem reads_group_map {β : Type} (val : α → β) {p : Nat → Reader β}
    {starts : Option Token → Bool} {follows : Option Token → Prop} {room : Nat}
    (hroom : nesting (groupTokens left right cut xs) ≤ room)
    (hopens : ∀ x ∈ xs, Opens starts follows (cut x))
    (hread : ∀ inner, ∀ x ∈ xs, nesting (cut x) ≤ inner →
      Reads follows (p inner) (cut x) (val x))
    (hend : follows (some (.punct right)) ∧ starts (some (.punct right)) = false) :
    Reads (notAt [left] · = true)
      (maybe (atPunct left) (enclosed left right (fun room => many1 starts (p room)) room))
      (groupTokens left right cut xs) (nonEmpty? (xs.map val)) := by
  intro rest hrest
  rcases hxs : xs with _ | ⟨x, more⟩
  · exact maybe_none (atPunct_of_notAt hrest List.mem_cons_self)
  subst hxs
  rw [groupTokens, nesting_enclosed hleft hright (bracketed_flatMap hcut)] at hroom
  obtain ⟨inner, rfl⟩ : ∃ inner, room = inner + 1 := ⟨room - 1, by omega⟩
  have hinside : ∀ y ∈ x :: more, Reads follows (p inner) (cut y) (val y) := by
    intro y hy
    have hle := nesting_le_flatMap hcut hy
    exact hread inner y hy (by omega)
  have hmany := reads_many1 hopens hinside (List.cons_ne_nil x more)
  exact maybe_some (by simp [groupTokens, atPunct])
    (Reads.enclosed (fun room => many1 starts (p room)) hmany hend rest trivial)

theorem reads_group {p : Nat → Reader α} {starts : Option Token → Bool}
    {follows : Option Token → Prop} {room : Nat}
    (hroom : nesting (groupTokens left right cut xs) ≤ room)
    (hopens : ∀ x ∈ xs, Opens starts follows (cut x))
    (hread : ∀ inner, ∀ x ∈ xs, nesting (cut x) ≤ inner → Reads follows (p inner) (cut x) x)
    (hend : follows (some (.punct right)) ∧ starts (some (.punct right)) = false) :
    Reads (notAt [left] · = true)
      (maybe (atPunct left) (enclosed left right (fun room => many1 starts (p room)) room))
      (groupTokens left right cut xs) (nonEmpty? xs) := by
  have hgroup := reads_group_map hleft hright hcut id hroom hopens hread hend
  rwa [List.map_id] at hgroup

end Group

theorem Directive.bracketed (d : Directive) : Bracketed d.tokens :=
  ((bracketed_groupTokens (fun _ => rfl) (fun _ => rfl) fun e _ =>
    (bracketed_namedTokens e).1).cons fun _ => rfl).cons fun _ => rfl

theorem Directive.Regular.reads {d : Directive} (h : d.Regular) {room : Nat}
    (hroom : nesting d.tokens ≤ room) :
    Reads (notAt ['('] · = true) (directive room) d.tokens d := by
  intro rest hrest
  rw [Directive.tokens, nesting_cons rfl, nesting_cons rfl] at hroom
  have hread : ∀ inner, ∀ e ∈ d.arguments, nesting (namedTokens e) ≤ inner →
      Reads (fun _ => True) (entry false inner) (namedTokens e) e := by
    intro inner e he hle
    rw [(bracketed_namedTokens e).2] at hle
    exact reads_entry ((h.arguments e he).2.reads hle)
  have harguments := reads_group (fun _ => rfl) (fun _ => rfl)
    (fun e _ => (bracketed_namedTokens e).1) hroom (fun e _ => opens_namedTokens e) hread
    ⟨trivial, rfl⟩ rest hrest
  unfold entry at harguments
  rw [Directive.tokens, List.cons_append, List.cons_append, directive,
    bind_ok (punct_cons '@' _), bind_ok (name_cons _ _), bind_ok harguments]
  simp

theorem Directive.opens (follows : Option Token → Prop) (h : follows (some (.punct '@')))
    (d : Directive) : Opens (atPunct '@') follows d.tokens :=
  ⟨_, _, rfl, rfl, h⟩

theorem follows_directives (follows : Option Token → Prop) (h : follows (some (.punct '@')))
    (ds : List Directive) {rest : List Token} (hrest : follows rest.head?) :
    follows (ds.flatMap Directive.tokens ++ rest).head? :=
  follows_flatMap (fun d _ => d.opens follows h) hrest

theorem directives_none {cs : List Char} (hcs : '@' ∈ cs) (room : Nat) {ts : List Token}
    (h : notAt cs ts.head? = true) : directives room ts = .ok ([], ts) :=
  many_of_not_starts _ _ ts (atPunct_of_notAt h hcs)

theorem bracketed_directives (ds : List Directive) : Bracketed (ds.flatMap Directive.tokens) :=
  bracketed_flatMap fun d _ => d.bracketed

theorem reads_directives {ds : List Directive} (h : ∀ d ∈ ds, d.Regular) {room : Nat}
    (hroom : nesting (ds.flatMap Directive.tokens) ≤ room) :
    Reads (notAt ['(', '@'] · = true) (directives room) (ds.flatMap Directive.tokens) ds := by
  intro rest hrest
  have hread : ∀ d ∈ ds, Reads (notAt ['('] · = true) (directive room) d.tokens d := by
    intro d hd
    have hle := nesting_le_flatMap (fun d _ => d.bracketed) hd
    exact (h d hd).reads (by omega)
  have hmany := reads_many (fun d _ => d.opens (notAt ['('] · = true) rfl) hread rest
    ⟨notAt_of_subset hrest (by simp), atPunct_of_notAt hrest (by simp)⟩
  rwa [List.map_id'] at hmany

theorem reads_description (d : Option String) :
    Reads (fun t => startsWithText t = false) description (descriptionTokens d) d := by
  intro rest hrest
  cases d with
  | none => exact maybe_none hrest
  | some s => exact maybe_some rfl rfl

theorem description_name (s : String) (ts : List Token) :
    description (.name s :: ts) = .ok (none, .name s :: ts) :=
  maybe_none rfl

theorem bracketed_descriptionTokens (d : Option String) :
    Bracketed (descriptionTokens d) ∧ nesting (descriptionTokens d) = 0 := by
  cases d with
  | none => exact ⟨bracketed_nil, rfl⟩
  | some s => exact ⟨bracketed_single fun _ => rfl, rfl⟩

theorem bracketed_defaultTokens (default : Option Value) : Bracketed (defaultTokens default) := by
  cases default with
  | none => exact bracketed_nil
  | some v => exact v.bracketed.cons fun _ => rfl

theorem reads_default {default : Option Value} (h : ∀ v ∈ default, v.Readable true) {room : Nat}
    (hroom : nesting (defaultTokens default) ≤ room) :
    Reads (notAt ['='] · = true)
      (maybe (atPunct '=') (do punct '='; value true room)) (defaultTokens default) default := by
  intro rest hrest
  cases default with
  | none => exact maybe_none (atPunct_of_notAt hrest List.mem_cons_self)
  | some v =>
    rw [defaultTokens, nesting_cons rfl] at hroom
    refine maybe_some rfl ?_
    rw [defaultTokens, List.cons_append, bind_ok (punct_cons '=' _)]
    exact (h v rfl).reads hroom rest trivial

theorem Argument.bracketed (a : Argument) : Bracketed a.tokens :=
  ((a.type.bracketed.append (bracketed_defaultTokens a.default)).cons fun _ => rfl).cons
    fun _ => rfl

theorem Argument.nesting_tokens (a : Argument) : nesting a.tokens =
    max (nesting a.type.tokens) (nesting (defaultTokens a.default)) := by
  rw [Argument.tokens, nesting_cons rfl, nesting_cons rfl, a.type.bracketed.nesting_append]

theorem Argument.Regular.reads {a : Argument} (h : a.Regular) {room : Nat}
    (hroom : nesting a.tokens ≤ room) :
    Reads (notAt ['!', '=', '(', '@'] · = true) (argument room) a.tokens a := by
  intro rest hrest
  rw [a.nesting_tokens, Nat.max_le] at hroom
  -- An exclamation mark right after the type would be taken for a part of it.
  have hmark : notAt ['!'] (defaultTokens a.default ++ rest).head? = true := by
    cases a.default with
    | none => exact notAt_of_subset hrest (by simp)
    | some v => rfl
  have htype := a.type.reads hroom.1 _ hmark
  have hdefault := reads_default h.default hroom.2 rest (notAt_of_subset hrest (by simp))
  have hdirectives := directives_none (by simp) room hrest
  rw [Argument.tokens, List.cons_append, List.cons_append, List.append_assoc, argument,
    bind_ok (description_name _ _), bind_ok (name_cons _ _), bind_ok (punct_cons ':' _),
    bind_ok htype, bind_ok hdefault, bind_ok hdirectives, ← h.description, ← h.directives]
  rfl

theorem Argument.opens {cs : List Char} (a : Argument) :
    Opens startsDescribed (notAt cs · = true) a.tokens :=
  ⟨_, _, rfl, rfl, rfl⟩

theorem FieldDeclaration.opens {cs : List Char} (f : FieldDeclaration) :
    Opens startsDescribed (notAt cs · = true) f.tokens := by
  obtain ⟨description, _, _, _, _⟩ := f
  cases description <;> exact ⟨_, _, rfl, rfl, rfl⟩

theorem bracketed_arguments (as : List Argument) : Bracketed (argumentTokens as) :=
  bracketed_groupTokens (fun _ => rfl) (fun _ => rfl) fun a _ => a.bracketed

theorem reads_arguments {as : List Argument} (h : ∀ a ∈ as, a.Regular) {room : Nat}
    (hroom : nesting (argumentTokens as) ≤ room) :
    Reads (notAt ['('] · = true) (arguments room) (argumentTokens as) as := by
  intro rest hrest
  have hread := reads_group (fun _ => rfl) (fun _ => rfl) (fun a _ => a.bracketed) hroom
    (fun a _ => a.opens) (fun _ a ha hle => (h a ha).reads hle) ⟨rfl, rfl⟩ rest hrest
  rw [arguments, argumentTokens, bind_ok hread]
  simp

theorem FieldDeclaration.bracketed (f : FieldDeclaration) : Bracketed f.tokens := by
  have hafter := f.type.bracketed.append (bracketed_directives f.directives)
  exact (bracketed_descriptionTokens f.description).1.append
    (((bracketed_arguments f.arguments).append (hafter.cons fun _ => rfl)).cons fun _ => rfl)

theorem FieldDeclaration.nesting_tokens (f : FieldDeclaration) : nesting f.tokens =
    max (nesting (argumentTokens f.arguments))
      (max (nesting f.type.tokens) (nesting (f.directives.flatMap Directive.tokens))) := by
  obtain ⟨hdescription, hzero⟩ := bracketed_descriptionTokens f.description
  rw [FieldDeclaration.tokens, hdescription.nesting_append, hzero, nesting_cons rfl,
    (bracketed_arguments f.arguments).nesting_append, nesting_cons rfl,
    f.type.bracketed.nesting_append, Nat.zero_max]

theorem FieldDeclaration.Regular.reads {f : FieldDeclaration} (h : f.Regular) {room : Nat}
    (hroom : nesting f.tokens ≤ room) :
    Reads (notAt ['!', '(', '@'] · = true) (field room) f.tokens f := by
  intro rest hrest
  rw [f.nesting_tokens, Nat.max_le, Nat.max_le] at hroom
  obtain ⟨hroomArguments, hroomType, hroomDirectives⟩ := hroom
  have hmark : notAt ['!'] (f.directives.flatMap Directive.tokens ++ rest).head? = true :=
    follows_directives (notAt ['!'] · = true) rfl _ (notAt_of_subset hrest (by simp))
  have harguments := reads_arguments h.arguments hroomArguments (.punct ':' ::
    (f.type.tokens ++ (f.directives.flatMap Directive.tokens ++ rest))) rfl
  have htype := f.type.reads hroomType _ hmark
  have hdirectives := reads_directives h.directives hroomDirectives rest
    (notAt_of_subset hrest (by simp))
  rw [FieldDeclaration.tokens, List.append_assoc, field,
    bind_ok (reads_description f.description _ rfl), List.cons_append, bind_ok (name_cons _ _),
    List.append_assoc, List.cons_append, List.append_assoc, bind_ok harguments,
    bind_ok (punct_cons ':' _), bind_ok htype, bind_ok hdirectives]
  rfl

def EndsType (t : Option Token) : Prop :=
  notAt ['(', '@', '\x7b'] t = true ∧ atWord "implements" t = false

theorem follows_fieldTokens (follows : Option Token → Prop)
    (h : follows (some (.punct '\x7b'))) (fs : List FieldDeclaration) {rest : List Token}
    (hrest : follows rest.head?) : follows (fieldTokens fs ++ rest).head? := by
  cases fs with
  | nil => exact hrest
  | cons f fs => exact h

theorem interfaces_none {ts : List Token} (h : atWord "implements" ts.head? = false) :
    interfaces ts = .ok ([], ts) := by
  rw [interfaces, bind_ok (next_apply ts), h]
  rfl

theorem described_keyword {room : Nat} {description : Option String} {kind : TypeKind}
    {ts us : List Token} {d : TypeDeclaration} {is : List String}
    (h : typeDeclaration room description kind ts = .ok ((d, is), us)) :
    described room description (.name kind.keyword :: ts) = .ok (.type d, us) := by
  rw [described, bind_ok (rest_apply _), bind_ok (name_cons _ _)]
  cases kind <;> exact map_ok h

theorem definition_described (room : Nat) (d : Option String) (kind : TypeKind)
    (ts : List Token) : definition room (descriptionTokens d ++ .name kind.keyword :: ts) =
      described room d (.name kind.keyword :: ts) := by
  have hread : description (descriptionTokens d ++ .name kind.keyword :: ts) =
      .ok (d, .name kind.keyword :: ts) := reads_description d _ rfl
  have hhead : ∀ s ∈ ["schema", "extend"],
      atWord s (descriptionTokens d ++ .name kind.keyword :: ts).head? = false := by
    cases d with
    | some text => exact fun _ _ => rfl
    | none => cases kind <;> simp [descriptionTokens, atWord, TypeKind.keyword]
  rw [definition, bind_ok (next_apply _), hhead "schema" (by simp), hhead "extend" (by simp),
    if_neg Bool.false_ne_true, if_neg Bool.false_ne_true, bind_ok hread]

theorem bracketed_fields (fs : List FieldDeclaration) : Bracketed (fieldTokens fs) :=
  bracketed_groupTokens (fun _ => rfl) (fun _ => rfl) fun f _ => f.bracketed

theorem TypeDeclaration.bracketed (d : TypeDeclaration) : Bracketed d.tokens := by
  have hafter := (bracketed_directives d.directives).append (bracketed_fields d.fields)
  refine (bracketed_descriptionTokens d.description).1.append ((hafter.cons ?_).cons ?_)
  all_goals exact fun _ => rfl

theorem TypeDeclaration.nesting_tokens (d : TypeDeclaration) : nesting d.tokens =
    max (nesting (d.directives.flatMap Directive.tokens)) (nesting (fieldTokens d.fields)) := by
  obtain ⟨hdescription, hzero⟩ := bracketed_descriptionTokens d.description
  rw [TypeDeclaration.tokens, hdescription.nesting_append, hzero, nesting_cons rfl,
    nesting_cons rfl, (bracketed_directives d.directives).nesting_append, Nat.zero_max]

section Declaration

variable {d : TypeDeclaration} (h : d.Regular)
include h

theorem reads_fields {room : Nat} (hroom : nesting (fieldTokens d.fields) ≤ room) :
    Reads (notAt ['\x7b'] · = true) (body field room) (fieldTokens d.fields)
      (nonEmpty? d.fields) :=
  reads_group (fun _ => rfl) (fun _ => rfl) (fun f _ => f.bracketed) hroom
    (fun f _ => f.opens) (fun _ f hf hle => (h.fields f hf).reads hle) ⟨rfl, rfl⟩

theorem reads_typeDeclaration {room : Nat} (hroom : nesting d.tokens ≤ room) :
    Reads EndsType (typeDeclaration room d.description d.kind)
      (.name d.name :: (d.directives.flatMap Directive.tokens ++ fieldTokens d.fields))
      (d, []) := by
  intro rest ⟨hmarks, hword⟩
  rw [d.nesting_tokens, Nat.max_le] at hroom
  obtain ⟨hroomDirectives, hroomFields⟩ := hroom
  have hfields := reads_fields h hroomFields rest (notAt_of_subset hmarks (by simp))
  have hafter : notAt ['(', '@'] (fieldTokens d.fields ++ rest).head? = true :=
    follows_fieldTokens (notAt ['(', '@'] · = true) rfl d.fields (notAt_of_subset hmarks (by simp))
  have hdirectives := reads_directives h.directives hroomDirectives _ hafter
  -- A type that is written out names no interfaces, and nothing after it may look as if it did.
  have hinterfaces := interfaces_none (follows_directives (atWord "implements" · = false) rfl
    d.directives (follows_fieldTokens (atWord "implements" · = false) rfl d.fields hword))
  rw [List.cons_append, List.append_assoc, typeDeclaration, bind_ok (name_cons _ _),
    bind_ok hinterfaces, bind_ok hdirectives, bind_ok hfields]
  simp

theorem TypeDeclaration.Regular.reads {room : Nat} (hroom : nesting d.tokens ≤ room) :
    Reads EndsType (definition room) d.tokens (.type d) := by
  intro rest hrest
  have hdeclaration := reads_typeDeclaration h hroom rest hrest
  rw [TypeDeclaration.tokens, List.append_assoc, List.cons_append, definition_described,
    described_keyword hdeclaration]

end Declaration

theorem TypeDeclaration.opens (d : TypeDeclaration) :
    Opens Option.isSome EndsType d.tokens := by
  obtain ⟨description, kind, _, _, _⟩ := d
  cases description
  · cases kind <;> exact ⟨_, _, rfl, rfl, rfl, rfl⟩
  · exact ⟨_, _, rfl, rfl, rfl, rfl⟩

theorem document_tokens {ds : List TypeDeclaration} (hne : ds ≠ []) (h : ∀ d ∈ ds, d.Regular)
    (hroom : nesting (ds.flatMap TypeDeclaration.tokens) ≤ nestingLimit) :
    document (ds.flatMap TypeDeclaration.tokens) = .ok (ds.map .type) := by
  have hread : ∀ d ∈ ds, Reads EndsType (definition nestingLimit) d.tokens (.type d) := by
    intro d hd
    have hle := nesting_le_flatMap (fun d _ => d.bracketed) hd
    exact (h d hd).reads (by omega)
  have hmany := reads_many1 (fun d _ => d.opens) hread hne [] ⟨⟨rfl, rfl⟩, rfl⟩
  rw [List.append_nil] at hmany
  rw [document, hmany]

theorem Document.ofText_eq_ok {cs : List Char} {ds : Document}
    (h : document (tokens cs) = .ok ds) : Document.ofText cs = .ok ds := by
  rw [tokens] at h
  simp only [Document.ofText, h]

end SchemaGraph.Sdl
