import SchemaGraph.Proofs.Graph.Invariant
import SchemaGraph.Proofs.Graph.Loaded
import SchemaGraph.Proofs.Graph.Spelling

/-! Graphs whose text is made of the tokens of a document. -/

namespace SchemaGraph

open Sdl

structure Annotation.Printable (a : Annotation) : Prop where
  name : isName a.name.toList = true
  arguments : a.arguments.All fun key literal =>
    isName key.toList = true ∧ ∃ v : Value, v.Regular false ∧ v.render = literal

structure FieldArgument.Printable (a : FieldArgument) : Prop where
  name : isName a.name.toList = true
  type : ∃ t : TypeRef, t.Regular ∧ t.render = a.type
  default : ∀ literal ∈ a.default, ∃ v : Value, v.Regular true ∧ v.render = literal

structure Field.Printable (f : Field) : Prop where
  name : isName f.name.toList = true
  arguments : ∀ a ∈ f.arguments, a.Printable
  directives : ∀ d ∈ f.directives, d.Printable
  type : f.type.Settled

structure TypeDef.Printable (t : TypeDef) : Prop where
  name : isName t.name.toList = true
  directives : ∀ d ∈ t.directives, d.Printable
  fields : t.fields.All fun _ f => f.Printable

def Graph.Printable (g : Graph) : Prop := g.types.All fun _ t => t.Printable

variable {α β : Type}

theorem exists_map_eq {P : β → Prop} {f : β → α} {xs : List α}
    (h : ∀ x ∈ xs, ∃ y, P y ∧ f y = x) : ∃ ys : List β, (∀ y ∈ ys, P y) ∧ ys.map f = xs := by
  induction xs with
  | nil => exact ⟨[], fun _ hy => absurd hy List.not_mem_nil, rfl⟩
  | cons x xs ih =>
    obtain ⟨y, hy, rfl⟩ := h x List.mem_cons_self
    obtain ⟨ys, hys, rfl⟩ := ih fun z hz => h z (List.mem_cons_of_mem _ hz)
    exact ⟨y :: ys, List.forall_mem_cons.2 ⟨hy, hys⟩, rfl⟩

theorem Annotation.Printable.exists_directive {a : Annotation} (h : a.Printable) :
    ∃ d : Directive, d.Regular ∧ ofSyntax d = a := by
  obtain ⟨es, hes, hmap⟩ := exists_map_eq (f := fun e : String × Value => (e.1, e.2.render))
    (P := fun e => isName e.1.toList = true ∧ e.2.Readable false) fun e he => by
      obtain ⟨hname, v, hv, hrender⟩ := h.arguments e he
      exact ⟨(e.1, v), ⟨hname, hv.readable⟩, by rw [hrender]⟩
  refine ⟨⟨a.name, es⟩, ⟨h.name, hes, ?_⟩, ?_⟩
  · have hnodup := a.arguments.nodup
    rw [← hmap, List.map_map] at hnodup
    exact hnodup
  · rw [ofSyntax, hmap, Keyed.ofList_entries]

theorem FieldArgument.Printable.exists_argument {a : FieldArgument} (h : a.Printable) :
    ∃ d : Argument, d.Regular ∧ ofSyntax d = a := by
  obtain ⟨t, ht, htype⟩ := h.type
  obtain ⟨v, hv, hdefault⟩ : ∃ v : Option Value, (∀ w ∈ v, w.Readable true) ∧
      v.map Value.render = a.default := by
    rcases hcases : a.default with _ | literal
    · exact ⟨none, (fun _ hw => nomatch hw), rfl⟩
    · obtain ⟨v, hv, rfl⟩ := h.default literal hcases
      exact ⟨some v, fun w hw => Option.some.inj hw ▸ hv.readable, rfl⟩
  exact ⟨⟨none, a.name, t, v, []⟩, ⟨rfl, h.name, ht, hv, rfl⟩, by
    rw [ofSyntax, htype, hdefault]⟩

def FieldType.toSyntax (t : FieldType) : TypeRef :=
  if t.isList then .list (.named t.name false) t.isNonNull else .named t.name t.isNonNull

theorem FieldType.render_toSyntax (t : FieldType) : t.toSyntax.render = t.render := by
  obtain ⟨_, isList, isNonNull, name⟩ := t
  cases isList <;> cases isNonNull <;>
    simp [toSyntax, TypeRef.render, FieldType.render]

theorem FieldType.regular_toSyntax {t : FieldType} (h : isName t.name.toList = true) :
    t.toSyntax.Regular := by
  obtain ⟨_, isList, _, _⟩ := t
  cases isList <;> exact h

theorem FieldType.Settled.ofSyntax_toSyntax {t : FieldType} (h : t.Settled) :
    ofSyntax? t.toSyntax = some t := by
  obtain ⟨isCustom, isList, _, name⟩ := t
  have hcustom : isCustom = !Builtin.isScalar name := h
  subst hcustom
  cases isList <;> rfl

theorem Annotation.entries_ofSyntax (d : Directive) : (ofSyntax d).arguments.entries =
    (Keyed.ofList d.arguments).entries.map fun e => (e.1, e.2.render) :=
  congrArg Keyed.entries (Keyed.ofList_map Value.render d.arguments)

theorem Annotation.ofSyntax_regular {d : Directive} (h : d.Regular) :
    (ofSyntax d).Spelled ∧ (ofSyntax d).tokens = d.tokens := by
  have hentries := entries_ofSyntax d
  rw [Keyed.entries_ofList _ h.distinct] at hentries
  constructor
  · refine ⟨h.name, fun e he => ?_⟩
    rw [hentries] at he
    obtain ⟨x, hx, rfl⟩ := List.mem_map.1 he
    exact ⟨(h.arguments x hx).1, (h.arguments x hx).2.lexes.separable⟩
  · have hliteral : ∀ e ∈ d.arguments, literalTokens (e.1, e.2.render) = namedTokens e := by
      intro e he
      rw [literalTokens, (h.arguments e he).2.lexes.tokens_eq, namedTokens]
    unfold Annotation.tokens
    rw [hentries, groupTokens_map hliteral]
    rfl

theorem FieldArgument.ofSyntax_regular {a : Argument} (h : a.Regular) :
    (ofSyntax a).Spelled ∧ (ofSyntax a).tokens = a.tokens := by
  have hdefault : defaultTokens (a.default.map Value.render) = Sdl.defaultTokens a.default := by
    rcases hv : a.default with _ | v
    · rfl
    · rw [Option.map_some, defaultTokens, (h.default v hv).lexes.tokens_eq]
      rfl
  constructor
  · refine ⟨h.name, h.type.lexes.separable, fun literal hliteral => ?_⟩
    obtain ⟨v, hv, rfl⟩ := Option.map_eq_some_iff.1 hliteral
    exact (h.default v hv).lexes.separable
  · rw [FieldArgument.tokens, Argument.tokens, ← hdefault, ← h.type.lexes.tokens_eq]
    rfl

theorem spelled_directives {ds : List Directive} (h : ∀ d ∈ ds, d.Regular) :
    (∀ a ∈ ds.map Annotation.ofSyntax, a.Spelled) ∧
      (ds.map Annotation.ofSyntax).flatMap Annotation.tokens = ds.flatMap Directive.tokens := by
  have hspec := fun d hd => Annotation.ofSyntax_regular (h d hd)
  constructor
  · exact List.forall_mem_map.2 fun d hd => (hspec d hd).1
  · rw [List.flatMap_map]
    exact List.flatMap_congr fun d hd => (hspec d hd).2

structure Field.WrittenAs (f : Field) (d : FieldDeclaration) : Prop where
  description : d.description = f.description
  name : d.name = f.name
  arguments : d.arguments.map FieldArgument.ofSyntax = f.arguments
  type : d.type = f.type.toSyntax
  directives : d.directives.map Annotation.ofSyntax = f.directives
  settled : f.type.Settled
  regular : d.Regular

theorem Field.Printable.exists_writtenAs {f : Field} (h : f.Printable)
    (hname : isName f.type.name.toList = true) : ∃ d : FieldDeclaration, f.WrittenAs d := by
  obtain ⟨as, has, harguments⟩ := exists_map_eq fun a ha => (h.arguments a ha).exists_argument
  obtain ⟨ds, hds, hdirectives⟩ := exists_map_eq fun d hd => (h.directives d hd).exists_directive
  exact ⟨⟨f.description, f.name, as, f.type.toSyntax, ds⟩, rfl, rfl, harguments, rfl, hdirectives,
    h.type, h.name, has, FieldType.regular_toSyntax hname, hds⟩

section Field

variable {f : Field} {d : FieldDeclaration} (h : f.WrittenAs d)
include h

theorem Field.WrittenAs.ofSyntax_eq_ok (typeName : String) : ofSyntax typeName d = .ok f := by
  unfold ofSyntax
  rw [h.type, h.settled.ofSyntax_toSyntax, h.arguments, h.directives, h.description, h.name]

theorem Field.WrittenAs.spelled : f.Spelled ∧ f.tokens = d.tokens := by
  have hdirectives := h.directives ▸ spelled_directives h.regular.directives
  have htype : Lexes f.type.render.toList d.type.tokens := by
    rw [← f.type.render_toSyntax, ← h.type]
    exact h.regular.type.lexes
  constructor
  · refine ⟨h.name ▸ h.regular.name, fun a ha => ?_, htype.separable, hdirectives.1⟩
    rw [← h.arguments] at ha
    obtain ⟨x, hx, rfl⟩ := List.mem_map.1 ha
    exact (FieldArgument.ofSyntax_regular (h.regular.arguments x hx)).1
  · have harguments : groupTokens '(' ')' FieldArgument.tokens f.arguments =
        argumentTokens d.arguments := by
      rw [← h.arguments]
      exact groupTokens_map fun a ha =>
        (FieldArgument.ofSyntax_regular (h.regular.arguments a ha)).2
    rw [Field.tokens, harguments, htype.tokens_eq, hdirectives.2, ← h.description, ← h.name]
    rfl

end Field

structure TypeDef.WrittenAs (t : TypeDef) (d : TypeDeclaration) : Prop where
  description : d.description = t.description
  kind : d.kind = t.kind
  name : d.name = t.name
  directives : d.directives.map Annotation.ofSyntax = t.directives
  fields : ∃ ps : List (Declared Field FieldDeclaration), ps.map Prod.fst = t.fields.entries ∧
    ps.map Prod.snd = d.fields ∧ ∀ p ∈ ps, p.1.1 = p.1.2.name ∧ p.1.2.WrittenAs p.2
  regular : d.Regular

theorem TypeDef.Printable.exists_writtenAs {t : TypeDef} (h : t.Printable)
    (hfields : t.fields.All fun key f => key = f.name ∧ isName f.type.name.toList = true) :
    ∃ d : TypeDeclaration, t.WrittenAs d := by
  obtain ⟨ds, hds, hdirectives⟩ := exists_map_eq fun d hd => (h.directives d hd).exists_directive
  have hexists : ∀ e ∈ t.fields.entries, ∃ p : Declared Field FieldDeclaration,
      (p.1.1 = p.1.2.name ∧ p.1.2.WrittenAs p.2) ∧ p.1 = e := by
    intro e he
    obtain ⟨d, hd⟩ := (h.fields e he).exists_writtenAs (hfields e he).2
    exact ⟨(e, d), ⟨(hfields e he).1, hd⟩, rfl⟩
  obtain ⟨ps, hps, hentries⟩ := exists_map_eq hexists
  refine ⟨⟨t.description, t.kind, t.name, ds, ps.map Prod.snd⟩, rfl, rfl, rfl, hdirectives,
    ⟨ps, hentries, rfl, hps⟩, h.name, hds, fun f hf => ?_⟩
  obtain ⟨p, hp, rfl⟩ := List.mem_map.1 hf
  exact (hps p hp).2.regular

section Definition

variable {t : TypeDef} {d : TypeDeclaration} (h : t.WrittenAs d)
include h

theorem TypeDef.WrittenAs.ofSyntax_eq_ok {views : List ViewVersion}
    (hversion : t.version =
      (views.find? fun v => v.externalId = t.name).map ViewVersion.version) :
    ofSyntax views d = .ok t := by
  obtain ⟨ps, hentries, hdeclarations, hps⟩ := h.fields
  have hload : ∀ p ∈ ps, p.2.name = p.1.1 ∧ Field.ofSyntax d.name p.2 = .ok p.1.2 :=
    fun p hp => ⟨(hps p hp).2.name.trans (hps p hp).1.symm, (hps p hp).2.ofSyntax_eq_ok d.name⟩
  unfold ofSyntax
  rw [← hdeclarations, (addFields_eq_ok_iff hentries).2 hload]
  simp only [h.description, h.kind, h.name, h.directives, ← hversion]

theorem TypeDef.WrittenAs.spelled : t.Spelled ∧ t.tokens = d.tokens := by
  obtain ⟨ps, hentries, hdeclarations, hps⟩ := h.fields
  have hdirectives := h.directives ▸ spelled_directives h.regular.directives
  have hvalues := values_declared hentries
  constructor
  · refine ⟨h.name ▸ h.regular.name, hdirectives.1, fun f hf => ?_⟩
    rw [hvalues] at hf
    obtain ⟨p, hp, rfl⟩ := List.mem_map.1 hf
    exact (hps p hp).2.spelled.1
  · have hfields : fieldTokens (ps.map Prod.snd) =
        groupTokens '\x7b' '\x7d' Field.tokens (ps.map (·.1.2)) := by
      rw [fieldTokens, groupTokens_map fun p _ => rfl]
      exact (groupTokens_map fun p hp => (hps p hp).2.spelled.2).symm
    rw [TypeDef.tokens, hvalues, ← hfields, hdeclarations, hdirectives.2, ← h.description,
      ← h.kind, ← h.name]
    rfl

end Definition

end SchemaGraph
