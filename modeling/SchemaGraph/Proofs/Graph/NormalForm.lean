import SchemaGraph.Proofs.Graph.Edits
import SchemaGraph.Proofs.Graph.Rereading
import SchemaGraph.Proofs.Graph.RoundTrip

/-! The text of a graph that comes from a text is a normal form of that text: it is read as the same
graph, as long as the floating-point numbers that are kept are read from their own texts. -/

namespace SchemaGraph.Graph

open Sdl

def keptLiterals (s : String) : List Value :=
  if Text.isAllBlank s then []
  else
    match Document.ofText s.toList with
    | .ok ds => (declarations ds).flatMap TypeDeclaration.literals
    | .error _ => []

variable {views : List ViewVersion} {s : String} {g : Graph}

theorem exists_declared_of_load (h : load views s = .ok g) :
    ∃ ps : List (Declared TypeDef TypeDeclaration), ps.map Prod.fst = g.types.entries ∧
      (∀ p ∈ ps, p.1.2.name = p.1.1 ∧ TypeDef.ofSyntax views p.2 = .ok p.1.2) ∧
      (∀ p ∈ ps, p.2.Fits nestingLimit) ∧
      keptLiterals s = ps.flatMap fun p => p.2.literals := by
  rcases exists_document_of_load h with ⟨hblank, rfl⟩ | ⟨ds, htext, hdocument⟩
  · refine ⟨[], rfl, fun _ hp => absurd hp List.not_mem_nil,
      fun _ hp => absurd hp List.not_mem_nil, ?_⟩
    rw [keptLiterals, hblank, if_pos rfl, List.flatMap_nil]
  · obtain ⟨ps, hds, hentries, hload⟩ := exists_declared hdocument
    obtain ⟨-, hfits⟩ := document_spec (document_of_ofText htext)
    refine ⟨ps, hentries, hload, fun p hp => ?_, ?_⟩
    · have hmem : p.2 ∈ declarations ds := hds ▸ List.mem_map_of_mem hp
      exact hfits _ (mem_declarations.1 hmem)
    · unfold keptLiterals
      rw [isAllBlank_eq_false_of_ofText htext, if_neg Bool.false_ne_true, htext]
      dsimp only
      rw [← hds, List.flatMap_map]

section Declared

variable {ps : List (Declared TypeDef TypeDeclaration)}
  (hentries : ps.map Prod.fst = g.types.entries)
  (hload : ∀ p ∈ ps, p.1.2.name = p.1.1 ∧ TypeDef.ofSyntax views p.2 = .ok p.1.2)
  (hfits : ∀ p ∈ ps, p.2.Fits nestingLimit)
include hentries hload hfits

theorem tokens_render_declared :
    tokens g.render.toList = ps.flatMap fun p => p.1.2.tokens := by
  have hspelled : ∀ t ∈ g.types.values, t.Spelled := by
    rw [values_declared hentries]
    exact List.forall_mem_map.2 fun p hp =>
      TypeDef.spelled_ofSyntax (hfits p hp).1 (hload p hp).2
  rw [(lexes_render hspelled).tokens_eq, values_declared hentries, List.flatMap_map]

/-- A bad token in a literal is a bad token of the text, which is read by no reader. -/
theorem load_render_ne (hbad : ¬∀ p ∈ ps, Clean p.2.literals) : load views g.render ≠ .ok g := by
  intro hrender
  simp only [Clean, not_forall, not_not] at hbad
  obtain ⟨p, hp, v, hv, hbad⟩ := hbad
  obtain ⟨-, rfl⟩ | ⟨ds, htext, -⟩ := exists_document_of_load hrender
  · rw [List.map_eq_nil_iff.1 hentries] at hp
    exact absurd hp List.not_mem_nil
  obtain ⟨hgood, -⟩ := document_spec (document_of_ofText htext)
  rw [tokens_render_declared hentries hload hfits] at hgood
  exact hgood (List.mem_flatMap.2 ⟨p, hp, TypeDef.subset_tokens (hload p hp).2 hv hbad⟩)

variable (hclean : ∀ p ∈ ps, Clean p.2.literals)
include hclean

theorem document_render (hne : ps ≠ []) :
    document (tokens g.render.toList) = .ok (ps.map fun p => .type p.2.reread) := by
  have htokens : tokens g.render.toList =
      (ps.map fun p => p.2.reread).flatMap TypeDeclaration.tokens := by
    rw [tokens_render_declared hentries hload hfits, List.flatMap_map]
    exact List.flatMap_congr fun p hp =>
      TypeDef.tokens_ofSyntax (hfits p hp).1 (hload p hp).2 (hclean p hp)
  have hnesting : nesting ((ps.map fun p => p.2.reread).flatMap TypeDeclaration.tokens) ≤
      nestingLimit := by
    rw [List.flatMap_map]
    exact nesting_flatMap_le (fun p _ => p.2.reread.bracketed) fun p hp => (hfits p hp).2
  have hdocument := document_tokens (by simpa using hne) (List.forall_mem_map.2 fun p hp =>
    (hfits p hp).1.regular_reread (hclean p hp)) hnesting
  rw [htokens, hdocument, List.map_map]
  rfl

theorem load_render_iff :
    load views g.render = .ok g ↔ ∀ p ∈ ps, AllLegible p.2.literals := by
  by_cases hne : ps = []
  · subst hne
    obtain rfl : g = ∅ := congrArg Graph.mk (Keyed.ext hentries.symm)
    exact iff_of_true rfl fun _ hp => absurd hp List.not_mem_nil
  have hfst : (ps.map fun p => (p.1, p.2.reread)).map Prod.fst = g.types.entries := by
    rw [List.map_map]
    exact hentries
  have hdocument := document_render hentries hload hfits hclean hne
  have hrender : load views g.render =
      ofDocument views ((ps.map fun p => (p.1, p.2.reread)).map fun p => .type p.2) := by
    rw [load_of_ofText (Document.ofText_eq_ok hdocument), List.map_map]
    rfl
  rw [hrender, ofDocument_eq_ok_iff hfst, List.forall_mem_map]
  refine forall₂_congr fun p hp => ?_
  have htype := TypeDef.ofSyntax_reread_eq_iff (hfits p hp).1 (hload p hp).2 (hclean p hp)
  exact (and_iff_right (hload p hp).1).trans htype

end Declared

/-- The text of a graph is read as that graph exactly if no floating-point number was kept that is
not read as what it is. -/
theorem parse_render_iff (h : parse views s = .ok g) :
    parse views g.render = .ok g ↔ ∀ v ∈ keptLiterals s, v.Legible := by
  obtain ⟨hload, hrules⟩ := parse_eq_ok_iff.1 h
  obtain ⟨ps, hentries, hdeclared, hfits, hkept⟩ := exists_declared_of_load hload
  rw [parse_eq_ok_iff, and_iff_left hrules, hkept, List.forall_mem_flatMap]
  -- The text cannot be read at all, or it is read as the declarations that its tokens are.
  by_cases hclean : ∀ p ∈ ps, Clean p.2.literals
  · exact load_render_iff hentries hdeclared hfits hclean
  · refine iff_of_false (load_render_ne hentries hdeclared hfits hclean) fun hlegible => ?_
    refine hclean fun p hp v hv => ?_
    obtain ⟨constant, hformed⟩ := (hfits p hp).1.of_mem_literals v hv
    exact hformed.not_bad (hlegible p hp v hv)

/-- A fraction is kept with a point, a number with an exponent as an integer. -/
theorem parse_render_of_ratings :
    let s := "type Post @view(space: \"blog\") \x7b related(rated: [Float!] = [2.5e-1, -7.50, 1e3])" ++
      ": [Post!] @sorted(by: \x7bkey: [DATE, $order], depth: 1e400\x7d) \x7d"
    let views : List ViewVersion := [⟨"Post", "7"⟩]
    ∃ g, parse views s = .ok g ∧ (∀ v ∈ keptLiterals s, v.Legible) ∧
      parse views g.render = .ok g := by
  intro s views
  have hread : (parse views s).toOption.map typeNames = some ["Post"] := by decide +kernel
  obtain ⟨g, hparse, -⟩ := exists_eq_ok_of_map hread
  have hlegible : ∀ v ∈ keptLiterals s, v.Legible := by decide +kernel
  exact ⟨g, hparse, hlegible, (parse_render_iff hparse).2 hlegible⟩

/-- A number of 22 digits is kept as an integer, and as such it is too large to be read. -/
theorem parse_render_eq_error_of_large_float :
    let s := "type Post { related(rated: Float = 1e21): [Post] }"
    ∃ g, parse [] s = .ok g ∧ parse [] g.render = .error (.syntaxError 2 26) := by
  intro s
  have hread : (parse [] s).toOption.map (fun g => parse [] g.render) =
      some (.error (.syntaxError 2 26)) := by
    decide +kernel
  exact exists_eq_ok_of_map hread

end SchemaGraph.Graph
