import SchemaGraph.Proofs.Graph.Printing
import SchemaGraph.Proofs.Sdl.Documents

/-! What is loaded from declarations is written out as other declarations. They differ in what is
dropped and in the literals, which are what the texts of the old ones are read as. -/

namespace SchemaGraph

open Sdl

namespace Sdl

/-! The literals that are kept -/

def Directive.literals (d : Directive) : List Value := (Keyed.ofList d.arguments).values

def Argument.literals (a : Argument) : List Value := a.default.toList

def FieldDeclaration.literals (f : FieldDeclaration) : List Value :=
  f.arguments.flatMap Argument.literals ++ f.directives.flatMap Directive.literals

def TypeDeclaration.literals (d : TypeDeclaration) : List Value :=
  d.directives.flatMap Directive.literals ++ d.fields.flatMap FieldDeclaration.literals

theorem FieldDeclaration.forall_literals {f : FieldDeclaration} {P : Value → Prop} :
    (∀ v ∈ f.literals, P v) ↔ (∀ a ∈ f.arguments, ∀ v ∈ a.literals, P v) ∧
      ∀ d ∈ f.directives, ∀ v ∈ d.literals, P v := by
  unfold literals
  rw [List.forall_mem_append, List.forall_mem_flatMap, List.forall_mem_flatMap]

theorem TypeDeclaration.forall_literals {d : TypeDeclaration} {P : Value → Prop} :
    (∀ v ∈ d.literals, P v) ↔ (∀ a ∈ d.directives, ∀ v ∈ a.literals, P v) ∧
      ∀ f ∈ d.fields, ∀ v ∈ f.literals, P v := by
  unfold literals
  rw [List.forall_mem_append, List.forall_mem_flatMap, List.forall_mem_flatMap]

theorem Directive.Formed.kept {d : Directive} (h : d.Formed) :
    (Keyed.ofList d.arguments).All fun key v => isName key.toList = true ∧ v.Formed false :=
  Keyed.all_ofList h.arguments

theorem Directive.Formed.of_mem_literals {d : Directive} (h : d.Formed) :
    ∀ v ∈ d.literals, ∃ constant, v.Formed constant :=
  List.forall_mem_map.2 fun e he => ⟨false, (h.kept e he).2⟩

theorem FieldDeclaration.Formed.of_mem_literals {f : FieldDeclaration} (h : f.Formed) :
    ∀ v ∈ f.literals, ∃ constant, v.Formed constant := by
  rw [FieldDeclaration.forall_literals]
  refine ⟨fun a ha v hv => ⟨true, ?_⟩, fun d hd => (h.directives d hd).of_mem_literals⟩
  exact (h.arguments a ha).default v (Option.mem_toList.1 hv)

theorem TypeDeclaration.Formed.of_mem_literals {d : TypeDeclaration} (h : d.Formed) :
    ∀ v ∈ d.literals, ∃ constant, v.Formed constant := by
  rw [TypeDeclaration.forall_literals]
  exact ⟨fun a ha => (h.directives a ha).of_mem_literals,
    fun f hf => (h.fields f hf).of_mem_literals⟩

def Clean (vs : List Value) : Prop := ∀ v ∈ vs, .bad ∉ tokens v.render.toList

def AllLegible (vs : List Value) : Prop := ∀ v ∈ vs, v.Legible

theorem Value.Rereads.render_eq_iff {constant : Bool} {v : Value} (h : v.Rereads constant) :
    v.reread.render = v.render ↔ v.Legible := by
  refine ⟨fun heq => ?_, h.same⟩
  by_contra hno
  exact absurd (congrArg String.length heq) (h.shorter hno).ne

end Sdl

section Directive

variable {d : Directive} (h : d.Formed)
include h

theorem Annotation.spelled_ofSyntax : (ofSyntax d).Spelled := by
  refine ⟨h.name, fun e he => ?_⟩
  rw [entries_ofSyntax] at he
  obtain ⟨x, hx, rfl⟩ := List.mem_map.1 he
  exact ⟨(h.kept x hx).1, (h.kept x hx).2.separable⟩

variable (hclean : Clean d.literals)
include hclean

theorem Sdl.Directive.Formed.rereads :
    ∀ e ∈ (Keyed.ofList d.arguments).entries, e.2.Rereads false := fun e he =>
  (h.kept e he).2.rereads (hclean e.2 (List.mem_map_of_mem he))

theorem Sdl.Directive.Formed.regular_reread : d.reread.Regular := by
  refine ⟨h.name, List.forall_mem_map.2 fun e he => ?_, ?_⟩
  · exact ⟨(h.kept e he).1, (h.rereads hclean e he).readable⟩
  · rw [Directive.reread, List.map_map]
    exact (Keyed.ofList d.arguments).nodup

theorem Annotation.tokens_ofSyntax : (ofSyntax d).tokens = d.reread.tokens := by
  have hliteral : ∀ e ∈ (Keyed.ofList d.arguments).entries,
      literalTokens (e.1, e.2.render) = namedTokens (e.1, e.2.reread) := by
    intro e he
    rw [literalTokens, (h.rereads hclean e he).lexes.tokens_eq, namedTokens]
  unfold Annotation.tokens Directive.tokens
  rw [entries_ofSyntax, groupTokens_map hliteral, Directive.reread, groupTokens_map fun _ _ => rfl]
  rfl

theorem Annotation.ofSyntax_reread_eq_iff :
    ofSyntax d.reread = ofSyntax d ↔ AllLegible d.literals := by
  have hentries : (ofSyntax d.reread).arguments.entries =
      (Keyed.ofList d.arguments).entries.map fun e => (e.1, e.2.reread.render) := by
    rw [entries_ofSyntax, Keyed.entries_ofList _ (h.regular_reread hclean).distinct,
      Directive.reread, List.map_map]
    rfl
  have hsame : ofSyntax d.reread = ofSyntax d ↔
      (ofSyntax d.reread).arguments.entries = (ofSyntax d).arguments.entries := by
    refine ⟨congrArg fun a : Annotation => a.arguments.entries, fun heq => ?_⟩
    have harguments := Keyed.ext heq
    show Annotation.mk (ofSyntax d.reread).arguments d.name =
      Annotation.mk (ofSyntax d).arguments d.name
    rw [harguments]
  rw [hsame, hentries, entries_ofSyntax, List.map_inj_left]
  unfold AllLegible Directive.literals Keyed.values
  rw [List.forall_mem_map]
  refine forall₂_congr fun e he => ?_
  rw [Prod.mk.injEq, (h.rereads hclean e he).render_eq_iff]
  exact and_iff_right rfl

end Directive

theorem Annotation.subset_tokens {d : Directive} {v : Value} (hv : v ∈ d.literals) :
    Sdl.tokens v.render.toList ⊆ (ofSyntax d).tokens := by
  obtain ⟨e, he, rfl⟩ := List.mem_map.1 hv
  have hentry : (e.1, e.2.render) ∈ (ofSyntax d).arguments.entries := by
    rw [entries_ofSyntax]
    exact List.mem_map_of_mem he
  intro t ht
  refine List.mem_cons_of_mem _ (List.mem_cons_of_mem _ (subset_groupTokens hentry ?_))
  exact List.mem_cons_of_mem _ (List.mem_cons_of_mem _ ht)

section Argument

variable {a : Argument} (h : a.Formed)
include h

theorem FieldArgument.spelled_ofSyntax : (ofSyntax a).Spelled := by
  refine ⟨h.name, h.type.lexes.separable, fun literal hliteral => ?_⟩
  obtain ⟨v, hv, rfl⟩ := Option.map_eq_some_iff.1 hliteral
  exact (h.default v hv).separable

variable (hclean : Clean a.literals)
include hclean

theorem Sdl.Argument.Formed.rereads : ∀ v ∈ a.default, v.Rereads true := fun v hv =>
  (h.default v hv).rereads (hclean v (Option.mem_toList.2 hv))

theorem Sdl.Argument.Formed.regular_reread : a.reread.Regular := by
  refine ⟨rfl, h.name, h.type, fun w hw => ?_, rfl⟩
  obtain ⟨v, hv, rfl⟩ := Option.map_eq_some_iff.1 hw
  exact (h.rereads hclean v hv).readable

theorem FieldArgument.tokens_ofSyntax : (ofSyntax a).tokens = a.reread.tokens := by
  have hdefault : defaultTokens (a.default.map Value.render) =
      Sdl.defaultTokens (a.default.map Value.reread) := by
    rcases hv : a.default with _ | v
    · rfl
    · rw [Option.map_some, defaultTokens, (h.rereads hclean v hv).lexes.tokens_eq]
      rfl
  rw [FieldArgument.tokens, Argument.tokens, Argument.reread, ← hdefault,
    ← h.type.lexes.tokens_eq]
  rfl

theorem FieldArgument.ofSyntax_reread_eq_iff :
    ofSyntax a.reread = ofSyntax a ↔ AllLegible a.literals := by
  unfold ofSyntax Argument.reread AllLegible Argument.literals
  rw [FieldArgument.mk.injEq]
  rcases hv : a.default with _ | v
  · simp
  · simp [(h.rereads hclean v hv).render_eq_iff]

end Argument

theorem FieldArgument.subset_tokens {a : Argument} {v : Value} (hv : v ∈ a.literals) :
    Sdl.tokens v.render.toList ⊆ (ofSyntax a).tokens := by
  have hdefault : a.default = some v := Option.mem_toList.1 hv
  intro t ht
  refine List.mem_cons_of_mem _ (List.mem_cons_of_mem _ (List.mem_append_right _ ?_))
  rw [ofSyntax, hdefault]
  exact List.mem_cons_of_mem _ ht

section Directives

variable {ds : List Directive} (h : ∀ d ∈ ds, d.Formed)
include h

theorem spelled_annotations : ∀ a ∈ ds.map Annotation.ofSyntax, a.Spelled :=
  List.forall_mem_map.2 fun d hd => Annotation.spelled_ofSyntax (h d hd)

variable (hclean : ∀ d ∈ ds, Clean d.literals)
include hclean

theorem regular_directives : ∀ d ∈ ds.map Directive.reread, d.Regular :=
  List.forall_mem_map.2 fun d hd => (h d hd).regular_reread (hclean d hd)

theorem tokens_annotations : (ds.map Annotation.ofSyntax).flatMap Annotation.tokens =
    (ds.map Directive.reread).flatMap Directive.tokens := by
  rw [List.flatMap_map, List.flatMap_map]
  exact List.flatMap_congr fun d hd => Annotation.tokens_ofSyntax (h d hd) (hclean d hd)

theorem annotations_reread_eq_iff :
    (ds.map Directive.reread).map Annotation.ofSyntax = ds.map Annotation.ofSyntax ↔
      ∀ d ∈ ds, AllLegible d.literals := by
  rw [List.map_map, List.map_inj_left]
  exact forall₂_congr fun d hd => Annotation.ofSyntax_reread_eq_iff (h d hd) (hclean d hd)

end Directives

theorem subset_annotations {ds : List Directive} {d : Directive} (hd : d ∈ ds) {v : Value}
    (hv : v ∈ d.literals) :
    Sdl.tokens v.render.toList ⊆ (ds.map Annotation.ofSyntax).flatMap Annotation.tokens := by
  intro t ht
  exact List.mem_flatMap.2 ⟨_, List.mem_map_of_mem hd, Annotation.subset_tokens hv ht⟩

theorem FieldType.ofSyntax_reread (t : TypeRef) : ofSyntax? t.reread = ofSyntax? t := by
  rcases t with _ | ⟨_ | _, _⟩ <;> rfl

theorem FieldType.render_ofSyntax {t : TypeRef} {type : FieldType}
    (h : ofSyntax? t = some type) : type.render = t.reread.render := by
  rcases t with ⟨name, nonNull⟩ | ⟨⟨name, _⟩ | _, nonNull⟩
  · cases h
    cases nonNull <;> simp [FieldType.render, FieldType.make, TypeRef.reread, TypeRef.render]
  · cases h
    cases nonNull <;> simp [FieldType.render, FieldType.make, TypeRef.reread, TypeRef.render]
  · cases h

theorem Sdl.TypeRef.Regular.reread {t : TypeRef} (h : t.Regular) : t.reread.Regular := by
  rcases t with _ | ⟨_ | _, _⟩ <;> exact h

theorem Field.exists_type_of_ofSyntax {typeName : String} {f : FieldDeclaration} {field : Field}
    (h : ofSyntax typeName f = .ok field) : ∃ type, FieldType.ofSyntax? f.type = some type ∧
      field = ⟨f.arguments.map FieldArgument.ofSyntax, f.description,
        f.directives.map Annotation.ofSyntax, type, f.name⟩ := by
  unfold ofSyntax at h
  split at h
  · rename_i type htype
    cases h
    exact ⟨type, htype, rfl⟩
  · cases h

section Field

variable {typeName : String} {f : FieldDeclaration} {field : Field} (h : f.Formed)
  (hload : Field.ofSyntax typeName f = .ok field)
include h hload

theorem Field.spelled_ofSyntax : field.Spelled := by
  obtain ⟨type, htype, rfl⟩ := exists_type_of_ofSyntax hload
  refine ⟨h.name, ?_, ?_, spelled_annotations h.directives⟩
  · exact List.forall_mem_map.2 fun a ha => FieldArgument.spelled_ofSyntax (h.arguments a ha)
  · rw [FieldType.render_ofSyntax htype]
    exact h.type.reread.lexes.separable

variable (hclean : Clean f.literals)
include hclean

omit hload in
theorem Sdl.FieldDeclaration.Formed.regular_reread : f.reread.Regular := by
  obtain ⟨harguments, hdirectives⟩ := FieldDeclaration.forall_literals.1 hclean
  refine ⟨h.name, ?_, h.type.reread, regular_directives h.directives hdirectives⟩
  exact List.forall_mem_map.2 fun a ha => (h.arguments a ha).regular_reread (harguments a ha)

theorem Field.tokens_ofSyntax : field.tokens = f.reread.tokens := by
  obtain ⟨type, htype, rfl⟩ := exists_type_of_ofSyntax hload
  obtain ⟨harguments, hdirectives⟩ := FieldDeclaration.forall_literals.1 hclean
  have hgroup : groupTokens '(' ')' FieldArgument.tokens (f.arguments.map FieldArgument.ofSyntax) =
      argumentTokens (f.arguments.map Argument.reread) := by
    rw [argumentTokens, groupTokens_map fun a ha =>
      FieldArgument.tokens_ofSyntax (h.arguments a ha) (harguments a ha),
      groupTokens_map fun _ _ => rfl]
  rw [Field.tokens, hgroup, FieldType.render_ofSyntax htype, h.type.reread.lexes.tokens_eq,
    tokens_annotations h.directives hdirectives]
  rfl

theorem Field.ofSyntax_reread_eq_iff :
    Field.ofSyntax typeName f.reread = .ok field ↔ AllLegible f.literals := by
  obtain ⟨type, htype, rfl⟩ := exists_type_of_ofSyntax hload
  obtain ⟨harguments, hdirectives⟩ := FieldDeclaration.forall_literals.1 hclean
  have hok : Field.ofSyntax typeName f.reread =
      .ok ⟨(f.arguments.map Argument.reread).map FieldArgument.ofSyntax, f.description,
        (f.directives.map Directive.reread).map Annotation.ofSyntax, type, f.name⟩ := by
    rw [Field.ofSyntax, FieldDeclaration.reread, FieldType.ofSyntax_reread, htype]
  have hsame : (f.arguments.map Argument.reread).map FieldArgument.ofSyntax =
      f.arguments.map FieldArgument.ofSyntax ↔ ∀ a ∈ f.arguments, AllLegible a.literals := by
    rw [List.map_map, List.map_inj_left]
    exact forall₂_congr fun a ha =>
      FieldArgument.ofSyntax_reread_eq_iff (h.arguments a ha) (harguments a ha)
  have hlegible : AllLegible f.literals ↔ (∀ a ∈ f.arguments, AllLegible a.literals) ∧
      ∀ d ∈ f.directives, AllLegible d.literals := FieldDeclaration.forall_literals
  rw [hok, Except.ok.injEq, Field.mk.injEq, hsame,
    annotations_reread_eq_iff h.directives hdirectives, hlegible]
  simp only [true_and, and_true]

end Field

theorem Field.subset_tokens {typeName : String} {f : FieldDeclaration} {field : Field}
    (hload : Field.ofSyntax typeName f = .ok field) {v : Value} (hv : v ∈ f.literals) :
    Sdl.tokens v.render.toList ⊆ field.tokens := by
  obtain ⟨type, -, rfl⟩ := exists_type_of_ofSyntax hload
  intro t ht
  refine List.mem_append_right _ (List.mem_cons_of_mem _ ?_)
  rcases List.mem_append.1 hv with hv | hv
  · obtain ⟨a, ha, hv⟩ := List.mem_flatMap.1 hv
    refine List.mem_append_left _ (subset_groupTokens (List.mem_map_of_mem ha) ?_)
    exact FieldArgument.subset_tokens hv ht
  · obtain ⟨d, hd, hv⟩ := List.mem_flatMap.1 hv
    refine List.mem_append_right _ (List.mem_cons_of_mem _ (List.mem_append_right _ ?_))
    exact subset_annotations hd hv ht

theorem TypeDef.exists_declared_of_ofSyntax {views : List ViewVersion} {d : TypeDeclaration}
    {t : TypeDef} (h : ofSyntax views d = .ok t) :
    ∃ ps : List (Declared Field FieldDeclaration), ps.map Prod.snd = d.fields ∧
      ps.map Prod.fst = t.fields.entries ∧
      ∀ p ∈ ps, p.2.name = p.1.1 ∧ Field.ofSyntax d.name p.2 = .ok p.1.2 := by
  obtain ⟨hfields, -⟩ := ofSyntax_eq_ok_iff.1 h
  obtain ⟨ps, hds, hentries, hload⟩ := exists_declared_of_addFields hfields
  exact ⟨ps, hds, hentries.symm, hload⟩

section Definition

variable {views : List ViewVersion} {d : TypeDeclaration} {t : TypeDef} (h : d.Formed)
  (hload : TypeDef.ofSyntax views d = .ok t)
include h hload

theorem TypeDef.spelled_ofSyntax : t.Spelled := by
  obtain ⟨-, -, hdirectives, -, hname, -⟩ := ofSyntax_eq_ok_iff.1 hload
  obtain ⟨ps, hds, hentries, hfields⟩ := exists_declared_of_ofSyntax hload
  refine ⟨hname ▸ h.name, hdirectives ▸ spelled_annotations h.directives, ?_⟩
  rw [values_declared hentries]
  refine List.forall_mem_map.2 fun p hp => ?_
  exact Field.spelled_ofSyntax (h.fields p.2 (hds ▸ List.mem_map_of_mem hp)) (hfields p hp).2

variable (hclean : Clean d.literals)
include hclean

omit hload in
theorem Sdl.TypeDeclaration.Formed.regular_reread : d.reread.Regular := by
  obtain ⟨hdirectives, hfields⟩ := TypeDeclaration.forall_literals.1 hclean
  refine ⟨h.name, regular_directives h.directives hdirectives, ?_⟩
  exact List.forall_mem_map.2 fun f hf => (h.fields f hf).regular_reread (hfields f hf)

theorem TypeDef.tokens_ofSyntax : t.tokens = d.reread.tokens := by
  obtain ⟨-, hdescription, hannotations, hkind, hname, -⟩ := ofSyntax_eq_ok_iff.1 hload
  obtain ⟨ps, hds, hentries, hfields⟩ := exists_declared_of_ofSyntax hload
  obtain ⟨hdirectives, hliterals⟩ := TypeDeclaration.forall_literals.1 hclean
  have htokens : ∀ p ∈ ps, p.1.2.tokens = p.2.reread.tokens := by
    intro p hp
    have hmem : p.2 ∈ d.fields := hds ▸ List.mem_map_of_mem hp
    exact Field.tokens_ofSyntax (h.fields p.2 hmem) (hfields p hp).2 (hliterals p.2 hmem)
  have hgroup : groupTokens '\x7b' '\x7d' Field.tokens t.fields.values =
      fieldTokens (d.fields.map FieldDeclaration.reread) := by
    rw [values_declared hentries, groupTokens_map htokens, fieldTokens, ← hds, List.map_map,
      groupTokens_map fun _ _ => rfl]
    rfl
  rw [TypeDef.tokens, hgroup, ← hannotations, tokens_annotations h.directives hdirectives,
    ← hdescription, ← hkind, ← hname]
  rfl

theorem TypeDef.ofSyntax_reread_eq_iff :
    TypeDef.ofSyntax views d.reread = .ok t ↔ AllLegible d.literals := by
  obtain ⟨-, hdescription, hannotations, hkind, hname, hversion⟩ := ofSyntax_eq_ok_iff.1 hload
  obtain ⟨ps, hds, hentries, hfields⟩ := exists_declared_of_ofSyntax hload
  obtain ⟨hdirectives, hliterals⟩ := TypeDeclaration.forall_literals.1 hclean
  have hsame : addFields d.name ∅ (d.fields.map FieldDeclaration.reread) = .ok t.fields ↔
      ∀ f ∈ d.fields, AllLegible f.literals := by
    have hfst : (ps.map fun p => (p.1, p.2.reread)).map Prod.fst = t.fields.entries := by
      rw [List.map_map]
      exact hentries
    have hsnd : d.fields.map FieldDeclaration.reread =
        (ps.map fun p => (p.1, p.2.reread)).map Prod.snd := by
      rw [← hds, List.map_map, List.map_map]
      rfl
    rw [hsnd, addFields_eq_ok_iff hfst, List.forall_mem_map, ← hds, List.forall_mem_map]
    refine forall₂_congr fun p hp => ?_
    have hmem : p.2 ∈ d.fields := hds ▸ List.mem_map_of_mem hp
    have hfield := Field.ofSyntax_reread_eq_iff (h.fields p.2 hmem) (hfields p hp).2
      (hliterals p.2 hmem)
    exact (and_iff_right (hfields p hp).1).trans hfield
  have hlegible : AllLegible d.literals ↔ (∀ a ∈ d.directives, AllLegible a.literals) ∧
      ∀ f ∈ d.fields, AllLegible f.literals := TypeDeclaration.forall_literals
  -- Besides directives and fields both declarations say the same.
  rw [ofSyntax_eq_ok_iff, hlegible, ← annotations_reread_eq_iff h.directives hdirectives,
    hannotations, ← hsame]
  constructor
  · rintro ⟨hall, -, hreread, -⟩
    exact ⟨hreread, hall⟩
  · rintro ⟨hreread, hall⟩
    exact ⟨hall, hdescription, hreread, hkind, hname, hversion⟩

end Definition

theorem TypeDef.subset_tokens {views : List ViewVersion} {d : TypeDeclaration} {t : TypeDef}
    (hload : ofSyntax views d = .ok t) {v : Value} (hv : v ∈ d.literals) :
    Sdl.tokens v.render.toList ⊆ t.tokens := by
  obtain ⟨-, -, hannotations, -⟩ := ofSyntax_eq_ok_iff.1 hload
  obtain ⟨ps, hds, hentries, hfields⟩ := exists_declared_of_ofSyntax hload
  intro u hu
  refine List.mem_append_right _ (List.mem_cons_of_mem _ (List.mem_cons_of_mem _ ?_))
  rcases List.mem_append.1 hv with hv | hv
  · obtain ⟨a, ha, hv⟩ := List.mem_flatMap.1 hv
    rw [← hannotations]
    exact List.mem_append_left _ (subset_annotations ha hv hu)
  · obtain ⟨f, hf, hv⟩ := List.mem_flatMap.1 hv
    rw [← hds] at hf
    obtain ⟨p, hp, rfl⟩ := List.mem_map.1 hf
    have hvalue : p.1.2 ∈ t.fields.values := by
      rw [values_declared hentries]
      exact List.mem_map_of_mem hp
    refine List.mem_append_right _ (subset_groupTokens hvalue ?_)
    exact Field.subset_tokens (hfields p hp).2 hv hu

end SchemaGraph
