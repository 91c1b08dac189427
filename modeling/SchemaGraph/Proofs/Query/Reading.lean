import SchemaGraph.Proofs.Graph.Printing
import SchemaGraph.Proofs.Query.Grammar
import SchemaGraph.Query.Build

/-! Operations that are read back from their own text: first how the text is cut into tokens, then
how the tokens are read. -/

namespace SchemaGraph

open Sdl Reader

namespace Sdl

/-- Values that arguments are given; the entries of an object need not be in order. -/
inductive Value.Given : Value → Prop
  | regular {v : Value} (h : v.Regular false) : Given v
  | object {entries : List (String × Value)}
      (h : ∀ e ∈ entries, isName e.1.toList = true ∧ e.2.Regular false) : Given (.object entries)

def Value.arranged : Value → Value
  | .object entries => .object (Sorted.ofList entries)
  | v => v

theorem Value.Regular.arranged_eq {constant : Bool} {v : Value} (h : v.Regular constant) :
    v.arranged = v := by
  cases h with
  | object hsorted => rw [arranged, Sorted.ofList_of_ascending hsorted]
  | _ => rfl

section Given

variable {v : Value} (h : v.Given)
include h

theorem Value.Given.lexes : Lexes v.render.toList v.tokens := by
  cases h with
  | regular h => exact h.readable.lexes
  | object h =>
    rw [tokens_object]
    exact lexes_object Value.tokens (fun e he => (h e he).1) fun e he =>
      (h e he).2.readable.lexes

theorem Value.Given.reads {room : Nat} (hroom : nesting v.tokens ≤ room) :
    Reads (fun _ => True) (value false room) v.tokens v.arranged := by
  cases h with
  | regular h =>
    rw [h.arranged_eq]
    exact h.readable.reads hroom
  | object h =>
    exact reads_object (fun _ e he hle => (h e he).2.readable.reads hle) hroom

end Given

theorem notAt_groupTokens {α : Type} {left right : Char} {cut : α → List Token} {xs : List α}
    {cs : List Char} {rest : List Token} (hleft : left ∉ cs) (h : notAt cs rest.head? = true) :
    notAt cs (groupTokens left right cut xs ++ rest).head? = true := by
  cases xs with
  | nil => exact h
  | cons x xs => simp [groupTokens, notAt, hleft]

end Sdl

/-! Selections -/

namespace Selection

def braced : List Token → List Token
  | [] => []
  | t :: ts => .punct '\x7b' :: (t :: ts ++ [.punct '\x7d'])

mutual

def tokens : Selection → List Token
  | .field name as cs =>
    .name name :: (groupTokens '(' ')' namedTokens as ++ braced (allTokens cs))

def allTokens : List Selection → List Token
  | [] => []
  | c :: cs => c.tokens ++ allTokens cs

end

theorem allTokens_eq (cs : List Selection) : allTokens cs = cs.flatMap tokens := by
  induction cs with
  | nil => rw [allTokens, List.flatMap_nil]
  | cons c cs ih => rw [allTokens, List.flatMap_cons, ih]

theorem tokens_field (name : String) (as : List (String × Value)) (cs : List Selection) :
    (field name as cs).tokens = .name name ::
      (groupTokens '(' ')' namedTokens as ++ groupTokens '\x7b' '\x7d' tokens cs) := by
  have hbraced : braced (allTokens cs) = groupTokens '\x7b' '\x7d' tokens cs := by
    rcases cs with _ | ⟨⟨first, bs, ds⟩, cs⟩
    · rw [allTokens, braced, groupTokens]
    · rw [allTokens_eq, groupTokens, List.flatMap_cons, tokens]
      rfl
  rw [tokens, hbraced]

/-- The selection in a document, where no field gets another name and nothing is directed. -/
inductive Regular : Selection → Prop
  | field {name : String} {as : List (String × Value)} {cs : List Selection}
      (hname : isName name.toList = true)
      (harguments : ∀ a ∈ as, isName a.1.toList = true ∧ a.2.Given)
      (hchildren : ∀ c ∈ cs, Regular c) : Regular (.field name as cs)

def argument (a : String × Value) : String × Value := (a.1, a.2.arranged)

mutual

def toNode : Selection → Executable.Node
  | .field name as cs => .field none name (as.map argument) [] (toNodes cs)

def toNodes : List Selection → List Executable.Node
  | [] => []
  | c :: cs => c.toNode :: toNodes cs

end

theorem toNodes_eq_map (cs : List Selection) : toNodes cs = cs.map toNode := by
  induction cs with
  | nil => rw [toNodes, List.map_nil]
  | cons c cs ih => rw [toNodes, List.map_cons, ih]

theorem renderArguments_eq (as : List (String × Value)) : renderArguments as =
    SchemaGraph.renderArguments (as.map fun a => a.1 ++ ": " ++ a.2.render) := by
  cases as <;> rfl

theorem lexes_arguments {as : List (String × Value)}
    (h : ∀ a ∈ as, isName a.1.toList = true ∧ a.2.Given) :
    Lexes (renderArguments as).toList (groupTokens '(' ')' namedTokens as) ∧
      Delimited (renderArguments as).toList := by
  rw [renderArguments_eq]
  exact lexes_renderArguments fun a ha => lexes_named (h a ha).1 (h a ha).2.lexes

theorem all_isSeparator_indent (depth : Nat) : (indent depth).toList.all isSeparator = true := by
  simp [indent, isSeparator]

theorem delimited_indent (depth : Nat) {cs : List Char} (h : Delimited cs) :
    Delimited ((indent depth).toList ++ cs) := by
  cases depth with
  | zero => exact h
  | succ depth => simp [indent, Nat.mul_add, List.replicate_succ, endsNumber]

theorem delimited_render (depth : Nat) (s : Selection) :
    Delimited (s.render (depth + 1)).toList := by
  obtain ⟨name, as, cs⟩ := s
  cases cs <;> simp [render, indent, Nat.mul_add, List.replicate_succ, endsNumber]

theorem Regular.lexes {s : Selection} (h : s.Regular) (depth : Nat) :
    Lexes (s.render depth).toList s.tokens := by
  induction h generalizing depth with
  | @field name as cs hname harguments _ ih =>
    have harguments := lexes_arguments harguments
    have hchildren := (lexes_flatMap (fun c hc => ih c hc (depth + 1)) fun c _ =>
      delimited_render depth c).1
    have hbreak : Lexes ['\n'] [] := lexes_nil.separator rfl
    rw [tokens_field]
    rcases cs with _ | ⟨c, cs⟩
    · have hline := (lexes_name hname).append (harguments.1.append hbreak (by simp [endsNumber]))
        (harguments.2.append (by simp [endsNumber]))
      simpa [render, groupTokens] using hline.separators (all_isSeparator_indent depth)
    · -- From the closing brace back to the name: each piece is cut off by the one after it.
      have hclose := (hbreak.punct (c := '\x7d') (by decide)).separators
        (all_isSeparator_indent depth)
      have hinside := (hchildren.append hclose (delimited_indent depth (by
        simp [endsNumber, isPunct]))).separator (c := '\n') rfl
      have hbody := (hinside.punct (c := '\x7b') (by decide)).separator (c := ' ') rfl
      have hline := (lexes_name hname).append (harguments.1.append hbody (by simp [endsNumber]))
        (harguments.2.append (by simp [endsNumber]))
      have hrender : (Selection.field name as (c :: cs)).render depth = indent depth ++ name ++
          renderArguments as ++ " \x7b\n" ++ renderAll (depth + 1) (c :: cs) ++ indent depth ++
            "\x7d\n" := rfl
      rw [hrender, renderAll_eq_join]
      simpa [groupTokens, List.flatMap_map] using
        hline.separators (all_isSeparator_indent depth)

theorem reads_arguments {as : List (String × Value)}
    (h : ∀ a ∈ as, isName a.1.toList = true ∧ a.2.Given) {room : Nat}
    (hroom : nesting (groupTokens '(' ')' namedTokens as) ≤ room) :
    Reads (notAt ['('] · = true) (Executable.arguments room)
      (groupTokens '(' ')' namedTokens as) (as.map argument) := by
  intro rest hrest
  have hread : ∀ inner, ∀ a ∈ as, nesting (namedTokens a) ≤ inner →
      Reads (fun _ => True) (Executable.argument inner) (namedTokens a) (argument a) := by
    intro inner a ha hle
    rw [(bracketed_namedTokens a).2] at hle
    exact reads_entry ((h a ha).2.reads hle)
  have hgroup := reads_group_map (fun _ => rfl) (fun _ => rfl)
    (fun a _ => (bracketed_namedTokens a).1) argument hroom
    (fun a _ => opens_namedTokens a) hread ⟨trivial, rfl⟩ rest hrest
  rw [Executable.arguments, bind_ok hgroup]
  simp

theorem bracketed_arguments (as : List (String × Value)) :
    Bracketed (groupTokens '(' ')' namedTokens as) :=
  bracketed_groupTokens (fun _ => rfl) (fun _ => rfl) fun a _ => (bracketed_namedTokens a).1

theorem Regular.bracketed {s : Selection} (h : s.Regular) : Bracketed s.tokens := by
  induction h with
  | field _ harguments _ ih =>
    rw [tokens_field]
    exact ((bracketed_arguments _).append
      (bracketed_groupTokens (fun _ => rfl) (fun _ => rfl) ih)).cons fun _ => rfl

theorem opens_tokens {cs : List Char} (s : Selection) :
    Opens Executable.startsNode (notAt cs · = true) s.tokens := by
  obtain ⟨name, as, children⟩ := s
  exact ⟨_, _, tokens_field name as children, rfl, rfl⟩

theorem Regular.reads {s : Selection} (h : s.Regular) {room : Nat}
    (hroom : nesting s.tokens ≤ room) :
    Reads (notAt ['(', ':', '@', '\x7b'] · = true)
      (Executable.node (Executable.selections room) room) s.tokens s.toNode := by
  induction h generalizing room with
  | @field name as cs _ harguments hchildren ih =>
    intro rest hrest
    rw [tokens_field, nesting_cons rfl, (bracketed_arguments _).nesting_append,
      Nat.max_le] at hroom
    have hbody := reads_group_map (fun _ => rfl) (fun _ => rfl)
      (fun c hc => (hchildren c hc).bracketed) toNode hroom.2 (fun c _ => c.opens_tokens)
      (fun _ c hc hle => ih c hc hle) ⟨rfl, rfl⟩ rest (notAt_of_subset hrest (by simp))
    rw [← Executable.selections_eq] at hbody
    -- Neither a colon nor a directive comes between the parts of the selection.
    have hafter :
        notAt ['(', ':', '@'] (groupTokens '\x7b' '\x7d' tokens cs ++ rest).head? = true :=
      notAt_groupTokens (by decide) (notAt_of_subset hrest (by simp))
    have hcolon : notAt [':'] (groupTokens '(' ')' namedTokens as ++
        (groupTokens '\x7b' '\x7d' tokens cs ++ rest)).head? = true :=
      notAt_groupTokens (by decide) (notAt_of_subset hafter (by simp))
    have hbefore := reads_arguments harguments hroom.1 _ (notAt_of_subset hafter (by simp))
    have hdirectives := directives_none (by simp) room hafter
    rw [tokens_field, List.cons_append, List.append_assoc, Executable.node_name,
      Executable.field, bind_ok (name_cons _ _),
      bind_ok (maybe_none (atPunct_of_notAt hcolon List.mem_cons_self)), bind_ok hbefore,
      bind_ok hdirectives, bind_ok hbody]
    simp [toNode, toNodes_eq_map]

end Selection

/-! Operations -/

namespace Operation

def variableTokens (v : String × TypeRef) : List Token :=
  .punct '$' :: .name v.1 :: .punct ':' :: v.2.tokens

def tokens (o : Operation) : List Token :=
  .name "query" :: .name o.name :: (groupTokens '(' ')' variableTokens o.declared ++
    .punct '\x7b' :: (o.roots.flatMap Selection.tokens ++ [.punct '\x7d']))

structure Regular (o : Operation) : Prop where
  name : isName o.name.toList = true
  declared : ∀ v ∈ o.declared, isName v.1.toList = true ∧ v.2.Regular
  nonempty : o.roots ≠ []
  roots : ∀ s ∈ o.roots, s.Regular

def declaration (v : String × TypeRef) : Executable.VariableDeclaration := ⟨v.1, v.2, none, []⟩

def definition (o : Operation) : Executable.Definition :=
  .operation .query (some o.name) (o.declared.map declaration) [] (o.roots.map Selection.toNode)

section Variables

variable {vs : List (String × TypeRef)}

theorem lexes_variables (h : ∀ v ∈ vs, isName v.1.toList = true ∧ v.2.Regular) :
    Lexes (renderVariables vs).toList (groupTokens '(' ')' variableTokens vs) ∧
      Delimited (renderVariables vs).toList := by
  have hrender : renderVariables vs =
      SchemaGraph.renderArguments (vs.map fun v => "$" ++ v.1 ++ ": " ++ v.2.render) := by
    cases vs <;> rfl
  have hone : ∀ v ∈ vs, Lexes ("$" ++ v.1 ++ ": " ++ v.2.render).toList (variableTokens v) := by
    intro v hv
    have hcolon := ((h v hv).2.lexes.separator (c := ' ') rfl).punct (c := ':') (by decide)
    have hvariable := ((lexes_name (h v hv).1).append hcolon (by
      simp [endsNumber, isPunct])).punct (c := '$') (by decide)
    simpa [variableTokens] using hvariable
  rw [hrender]
  exact lexes_renderArguments hone

theorem bracketed_variableTokens (v : String × TypeRef) :
    Bracketed (variableTokens v) ∧ nesting (variableTokens v) = nesting v.2.tokens :=
  ⟨((v.2.bracketed.cons fun _ => rfl).cons fun _ => rfl).cons fun _ => rfl, by
    rw [variableTokens, nesting_cons rfl, nesting_cons rfl, nesting_cons rfl]⟩

theorem bracketed_variables : Bracketed (groupTokens '(' ')' variableTokens vs) :=
  bracketed_groupTokens (fun _ => rfl) (fun _ => rfl) fun v _ => (bracketed_variableTokens v).1

theorem opens_variableTokens {cs : List Char} (hcs : '$' ∉ cs) (v : String × TypeRef) :
    Opens (atPunct '$') (notAt cs · = true) (variableTokens v) :=
  ⟨_, _, rfl, rfl, by simp [notAt, hcs]⟩

theorem reads_variableDeclaration (v : String × TypeRef) {room : Nat}
    (hroom : nesting (variableTokens v) ≤ room) :
    Reads (notAt ['!', '=', '@'] · = true) (Executable.variableDeclaration room)
      (variableTokens v) (declaration v) := by
  intro rest hrest
  rw [(bracketed_variableTokens v).2] at hroom
  have htype := v.2.reads hroom rest (notAt_of_subset hrest (by simp))
  have hdirectives := directives_none (by simp) room hrest
  rw [variableTokens, List.cons_append, List.cons_append, List.cons_append,
    Executable.variableDeclaration, bind_ok (punct_cons '$' _), bind_ok (name_cons _ _),
    bind_ok (punct_cons ':' _), bind_ok htype,
    bind_ok (maybe_none (atPunct_of_notAt hrest (by simp))), bind_ok hdirectives]
  rfl

theorem reads_variables {room : Nat}
    (hroom : nesting (groupTokens '(' ')' variableTokens vs) ≤ room) :
    Reads (notAt ['('] · = true) (Executable.declarations room)
      (groupTokens '(' ')' variableTokens vs) (vs.map declaration) := by
  intro rest hrest
  have hgroup := reads_group_map (fun _ => rfl) (fun _ => rfl)
    (fun v _ => (bracketed_variableTokens v).1) declaration hroom
    (fun v _ => opens_variableTokens (by decide) v)
    (fun _ v _ hle => reads_variableDeclaration v hle) ⟨rfl, rfl⟩ rest hrest
  rw [Executable.declarations, bind_ok hgroup]
  simp

end Variables

section Regular

variable {o : Operation} (h : o.Regular)
include h

theorem Regular.lexes : Lexes o.render.toList o.tokens := by
  have hvariables := lexes_variables h.declared
  have hclose : Lexes ['\x7d', '\n'] [.punct '\x7d'] :=
    (lexes_nil.separator rfl).punct (by decide)
  have hroots := (lexes_flatMap (fun s hs => (h.roots s hs).lexes 1) fun s _ =>
    Selection.delimited_render 0 s).1
  have hinside := hroots.append hclose (by simp [endsNumber, isPunct])
  have hbody := ((hinside.separator (c := '\n') rfl).punct (c := '\x7b') (by decide)).separator
    (c := ' ') rfl
  have hname := (lexes_name h.name).append (hvariables.1.append hbody (by simp [endsNumber]))
    (hvariables.2.append (by simp [endsNumber]))
  have hkeyword := (lexes_name (s := "query") (by decide)).append (hname.separator (c := ' ') rfl)
    (by simp [endsNumber])
  rw [render, Selection.renderAll_eq_join]
  simpa [tokens, List.flatMap_map] using hkeyword

theorem Regular.reads {room : Nat} (hroom : nesting o.tokens ≤ room) :
    Reads (fun _ => True) (Executable.definition room) o.tokens o.definition := by
  have hbracketed := fun s hs => (h.roots s hs).bracketed
  rw [tokens, nesting_cons rfl, nesting_cons rfl, bracketed_variables.nesting_append,
    nesting_enclosed (fun _ => rfl) (fun _ => rfl) (bracketed_flatMap hbracketed),
    Nat.max_le] at hroom
  obtain ⟨inner, rfl⟩ : ∃ inner, room = inner + 1 := ⟨room - 1, by omega⟩
  have hread : ∀ s ∈ o.roots, Reads (notAt ['(', ':', '@', '\x7b'] · = true)
      (Executable.node (Executable.selections inner) inner) s.tokens s.toNode := by
    intro s hs
    have hle := nesting_le_flatMap hbracketed hs
    exact (h.roots s hs).reads (by omega)
  have hmany := reads_many1 (fun s _ => s.opens_tokens) hread h.nonempty
  have hselections : Reads (fun _ => True) (Executable.selections (inner + 1))
      (.punct '\x7b' :: (o.roots.flatMap Selection.tokens ++ [.punct '\x7d']))
      (o.roots.map Selection.toNode) := by
    rw [Executable.selections_eq]
    exact Reads.enclosed (fun room => many1 Executable.startsNode _) hmany ⟨rfl, rfl⟩
  intro rest _
  have hroots := hselections rest trivial
  rw [List.cons_append] at hroots
  generalize hopened : Token.punct '\x7b' ::
    (o.roots.flatMap Selection.tokens ++ [.punct '\x7d'] ++ rest) = opened at hroots
  -- The selections open with a brace, so that neither variables nor directives go on there.
  have hbrace : notAt ['(', '@'] opened.head? = true := hopened ▸ rfl
  have hdirectives := directives_none (by simp) (inner + 1) hbrace
  have hvariables := reads_variables hroom.1 opened (notAt_of_subset hbrace (by simp))
  have hoperation : Executable.operation (inner + 1) .query
      (.name o.name :: (groupTokens '(' ')' variableTokens o.declared ++ opened)) =
        .ok (o.definition, rest) := by
    rw [Executable.operation, bind_ok (maybe_some rfl (name_cons _ _)), bind_ok hvariables,
      bind_ok hdirectives, bind_ok hroots]
    rfl
  rw [tokens, List.cons_append, List.cons_append, List.append_assoc, List.cons_append,
    hopened, Executable.definition, bind_ok (rest_apply _), bind_ok (next_apply _)]
  exact hoperation

theorem Regular.ofText_render : Executable.ofText o.render = .ok [o.definition] := by
  have hread := h.reads (nesting_le_length o.tokens) [] trivial
  rw [List.append_nil] at hread
  rw [Executable.ofText, h.lexes.tokens_eq, Executable.document, many1, bind_ok hread,
    bind_ok (many_of_not_starts _ _ [] rfl)]
  rfl

end Regular

end Operation

end SchemaGraph
