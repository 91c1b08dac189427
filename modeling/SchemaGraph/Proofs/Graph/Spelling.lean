import SchemaGraph.Graph.Printer
import SchemaGraph.Proofs.Keyed
import SchemaGraph.Proofs.Sdl.Declarations

/-! The tokens of a graph's text. Literals are texts already: as long as each of them is cut into
the same tokens wherever it stands, so is the whole. -/

namespace SchemaGraph

open Sdl

def literalTokens (e : String × String) : List Token :=
  .name e.1 :: .punct ':' :: Sdl.tokens e.2.toList

def Annotation.tokens (a : Annotation) : List Token :=
  .punct '@' :: .name a.name :: groupTokens '(' ')' literalTokens a.arguments.entries

def FieldArgument.defaultTokens : Option String → List Token
  | some literal => .punct '=' :: Sdl.tokens literal.toList
  | none => []

def FieldArgument.tokens (a : FieldArgument) : List Token :=
  .name a.name :: .punct ':' :: (Sdl.tokens a.type.toList ++ defaultTokens a.default)

def Field.tokens (f : Field) : List Token :=
  descriptionTokens f.description ++ .name f.name ::
    (groupTokens '(' ')' FieldArgument.tokens f.arguments ++ .punct ':' ::
      (Sdl.tokens f.type.render.toList ++ f.directives.flatMap Annotation.tokens))

def TypeDef.tokens (t : TypeDef) : List Token :=
  descriptionTokens t.description ++ .name t.kind.keyword :: .name t.name ::
    (t.directives.flatMap Annotation.tokens ++
      groupTokens '\x7b' '\x7d' Field.tokens t.fields.values)

structure Annotation.Spelled (a : Annotation) : Prop where
  name : isName a.name.toList = true
  arguments : a.arguments.All fun key literal => isName key.toList = true ∧ Separable literal

structure FieldArgument.Spelled (a : FieldArgument) : Prop where
  name : isName a.name.toList = true
  type : Separable a.type
  default : ∀ literal ∈ a.default, Separable literal

structure Field.Spelled (f : Field) : Prop where
  name : isName f.name.toList = true
  arguments : ∀ a ∈ f.arguments, a.Spelled
  type : Separable f.type.render
  directives : ∀ d ∈ f.directives, d.Spelled

structure TypeDef.Spelled (t : TypeDef) : Prop where
  name : isName t.name.toList = true
  directives : ∀ d ∈ t.directives, d.Spelled
  fields : ∀ f ∈ t.fields.values, f.Spelled

section Arguments

variable {α : Type} {render : α → String} {cut : α → List Token} {xs : List α}

theorem lexes_renderArguments (h : ∀ x ∈ xs, Lexes (render x).toList (cut x)) :
    Lexes (renderArguments (xs.map render)).toList (groupTokens '(' ')' cut xs) ∧
      Delimited (renderArguments (xs.map render)).toList := by
  cases xs with
  | nil => exact ⟨lexes_nil, delimited_nil⟩
  | cons x xs =>
    have hargs := (lexes_commas h).enclosed '(' ')' (by decide) (by decide)
    exact ⟨by simpa [renderArguments, groupTokens] using hargs, by
      simp [renderArguments, endsNumber, isPunct]⟩

end Arguments

theorem Annotation.Spelled.lexes {a : Annotation} (h : a.Spelled) :
    Lexes a.render.toList a.tokens := by
  have hnamed : ∀ e ∈ a.arguments.entries,
      Lexes (e.1 ++ ": " ++ e.2).toList (literalTokens e) := fun e he =>
    lexes_named (h.arguments e he).1 (h.arguments e he).2
  have hargs := lexes_renderArguments hnamed
  have hname := ((lexes_name h.name).append hargs.1 hargs.2).punct (c := '@') (by decide)
  unfold Annotation.render Annotation.tokens
  simpa using hname

theorem lexes_renderAnnotations {as : List Annotation} (h : ∀ a ∈ as, a.Spelled) :
    Lexes (renderAnnotations as).toList (as.flatMap Annotation.tokens) ∧
      Delimited (renderAnnotations as).toList := by
  have hone : ∀ a ∈ as, Lexes (' ' :: a.render.toList) a.tokens := fun a ha =>
    (h a ha).lexes.separator rfl
  have hjoin := lexes_flatMap hone fun a _ => by simp [endsNumber]
  simpa [renderAnnotations, List.flatMap_map, List.map_map, Function.comp_def] using hjoin

theorem FieldArgument.Spelled.lexes {a : FieldArgument} (h : a.Spelled) :
    Lexes a.render.toList a.tokens := by
  obtain ⟨cs, hcs, hdelimited, htext⟩ : ∃ cs, Lexes cs (defaultTokens a.default) ∧ Delimited cs ∧
      a.render.toList = a.name.toList ++ (':' :: ' ' :: (a.type.toList ++ cs)) := by
    rcases hdefault : a.default with _ | literal
    · exact ⟨[], lexes_nil, delimited_nil, by simp [FieldArgument.render, hdefault]⟩
    · have hvalue := ((h.default literal hdefault).separator (c := ' ') rfl).punct (c := '=')
        (by decide)
      exact ⟨' ' :: '=' :: ' ' :: literal.toList, hvalue.separator rfl, by simp [endsNumber], by
        simp [FieldArgument.render, hdefault]⟩
  have htype := (h.type.append hcs hdelimited).separator (c := ' ') rfl
  rw [htext]
  exact (lexes_name h.name).append (htype.punct (by decide)) (by simp [endsNumber, isPunct])

theorem lexes_description {indent : String} (hindent : indent.toList.all isSeparator = true)
    (d : Option String) {cs : List Char} {ts : List Token} (h : Lexes cs ts) :
    Lexes ((renderDescription indent d).toList ++ cs) (descriptionTokens d ++ ts) := by
  cases d with
  | none => simpa [renderDescription, descriptionTokens] using h
  | some s =>
    have hbreak := (lexes_quote s).append (h.separator (c := '\n') rfl) (by simp [endsNumber])
    simpa [renderDescription, descriptionTokens] using hbreak.separators hindent

theorem Field.Spelled.lexes {f : Field} (h : f.Spelled) : Lexes f.renderLines.toList f.tokens := by
  have hargs := lexes_renderArguments fun a ha => (h.arguments a ha).lexes
  have hannotations := lexes_renderAnnotations h.directives
  -- From the end of the line to its start: each piece is cut off by the one after it.
  have hbreak := hannotations.1.append (lexes_nil.separator (c := '\n') rfl) (by simp [endsNumber])
  have hafter := h.type.append hbreak (hannotations.2.append (by simp [endsNumber]))
  have hcolon := (hafter.separator (c := ' ') rfl).punct (c := ':') (by decide)
  have hline := (lexes_name h.name).append (hargs.1.append hcolon (by
    simp [endsNumber, isPunct])) (hargs.2.append (by simp [endsNumber, isPunct]))
  have hindent : "  ".toList.all isSeparator = true := by decide
  have hall := lexes_description hindent f.description
    ((hline.separator (c := ' ') rfl).separator (c := ' ') rfl)
  unfold renderLines Field.render
  simpa [Field.tokens] using hall

theorem delimited_renderLines (f : Field) : Delimited f.renderLines.toList := by
  rcases hd : f.description with _ | s <;>
    simp [Field.renderLines, renderDescription, hd, endsNumber]

theorem lexes_renderFields {fs : List Field} (h : ∀ f ∈ fs, f.Spelled) :
    Lexes (renderFields fs).toList (groupTokens '\x7b' '\x7d' Field.tokens fs) ∧
      Delimited (renderFields fs).toList := by
  have hlines := (lexes_flatMap (fun f hf => (h f hf).lexes) fun f _ => delimited_renderLines f).1
  rcases fs with _ | ⟨f, fs⟩
  · exact ⟨lexes_nil.separator rfl, by simp [renderFields, endsNumber]⟩
  · have hbreak := (hlines.append ((lexes_nil.separator (c := '\n') rfl).punct (c := '\x7d')
      (by decide)) (by simp [endsNumber, isPunct])).separator (c := '\n') rfl
    have hgroup := (hbreak.punct (c := '\x7b') (by decide)).separator (c := ' ') rfl
    refine ⟨?_, by simp [renderFields, endsNumber]⟩
    simpa [renderFields, groupTokens, List.flatMap_map] using hgroup

theorem TypeKind.isName_keyword (kind : TypeKind) : isName kind.keyword.toList = true := by
  cases kind <;> decide

theorem TypeDef.Spelled.lexes {t : TypeDef} (h : t.Spelled) :
    Lexes t.render.toList t.tokens := by
  have hannotations := lexes_renderAnnotations h.directives
  have hbody := lexes_renderFields h.fields
  have hafter := (lexes_name h.name).append (hannotations.1.append hbody.1 hbody.2)
    (hannotations.2.append hbody.2)
  have hkeyword := (lexes_name t.kind.isName_keyword).append (hafter.separator (c := ' ') rfl)
    (by simp [endsNumber])
  have hindent : "".toList.all isSeparator = true := by decide
  have hall := lexes_description hindent t.description hkeyword
  unfold render
  simpa [TypeDef.tokens] using hall

theorem Graph.lexes_render {g : Graph} (h : ∀ t ∈ g.types.values, t.Spelled) :
    Lexes g.render.toList (g.types.values.flatMap TypeDef.tokens) := by
  have hbreak : ['\n'].all isSeparator = true := by decide
  have hlexes := lexes_intercalate hbreak (by simp [endsNumber]) (by simp)
    fun t ht => (h t ht).lexes
  unfold render
  simpa [String.toList_intercalate, Function.comp_def] using hlexes

end SchemaGraph
