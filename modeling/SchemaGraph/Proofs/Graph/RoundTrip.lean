import SchemaGraph.Proofs.Graph.Printing
import SchemaGraph.Proofs.Sdl.Documents

/-! A graph that keeps the rules comes back from its own text. -/

namespace SchemaGraph

open Sdl

theorem Builtin.isName_of_isFieldType {name : String} (h : isFieldType name = true) :
    isName name.toList = true := by
  have hall : ∀ s ∈ all.map Builtin.name ++ resourceReferences, isName s.toList = true := by
    decide
  refine hall name ?_
  rw [isFieldType, Bool.or_eq_true] at h
  rcases h with h | h
  · rcases hfind : find? name with _ | b
    · rw [isScalar, hfind] at h
      cases h
    · have hname := List.find?_some hfind
      have hmem := List.mem_map_of_mem (f := Builtin.name) (List.mem_of_find?_eq_some hfind)
      rw [decide_eq_true_eq] at hname
      exact List.mem_append_left _ (hname ▸ hmem)
  · exact List.mem_append_right _ (List.contains_iff_mem.1 h)

namespace Graph

variable {g : Graph}

theorem isName_of_resolves (hrules : g.violations = [])
    (h : g.types.All fun _ t => isName t.name.toList = true) {name : String}
    (hresolves : g.resolves name = true) : isName name.toList = true := by
  rw [resolves, Bool.or_eq_true] at hresolves
  rcases hresolves with hfield | htype
  · exact Builtin.isName_of_isFieldType hfield
  · obtain ⟨e, he, rfl⟩ := List.mem_map.1 ((Keyed.contains_iff_mem_keys _ _).1 htype)
    rw [type_keys_of_rules hrules e he]
    exact h e he

theorem Printable.exists_declarations (h : g.Printable) (hrules : g.violations = []) :
    ∃ ps : List (Declared TypeDef TypeDeclaration), ps.map Prod.fst = g.types.entries ∧
      ∀ p ∈ ps, p.1 ∈ g.types.entries ∧ p.1.2.WrittenAs p.2 := by
  have hexists : ∀ e ∈ g.types.entries, ∃ p : Declared TypeDef TypeDeclaration,
      (p.1 ∈ g.types.entries ∧ p.1.2.WrittenAs p.2) ∧ p.1 = e := by
    intro e he
    have hkeys := ((g.violations_eq_nil_iff.1 hrules) e he).2
    have hnames := h.imp fun _ t (ht : t.Printable) => ht.name
    have hfields : e.2.fields.All fun key f => key = f.name ∧ isName f.type.name.toList = true :=
      hkeys.imp fun key f hf => ⟨hf.1, isName_of_resolves hrules hnames hf.2.1⟩
    obtain ⟨d, hd⟩ := (h e he).exists_writtenAs hfields
    exact ⟨(e, d), ⟨he, hd⟩, rfl⟩
  obtain ⟨ps, hps, hentries⟩ := exists_map_eq hexists
  exact ⟨ps, hentries, hps⟩

theorem tokens_render {ps : List (Declared TypeDef TypeDeclaration)}
    (hentries : ps.map Prod.fst = g.types.entries) (hps : ∀ p ∈ ps, p.1.2.WrittenAs p.2) :
    tokens g.render.toList = (ps.map Prod.snd).flatMap TypeDeclaration.tokens := by
  have hvalues := values_declared hentries
  have hlexes := lexes_render fun t ht => by
    rw [hvalues] at ht
    obtain ⟨p, hp, rfl⟩ := List.mem_map.1 ht
    exact (hps p hp).spelled.1
  rw [hlexes.tokens_eq, hvalues, List.flatMap_map, List.flatMap_map]
  exact List.flatMap_congr fun p hp => (hps p hp).spelled.2

theorem load_of_ofText {s : String} {ds : Document} (h : Document.ofText s.toList = .ok ds)
    (views : List ViewVersion) : load views s = ofDocument views ds := by
  rw [load, isAllBlank_eq_false_of_ofText h, if_neg Bool.false_ne_true, h]

theorem load_render (views : List ViewVersion) (hrules : g.violations = []) (h : g.Printable)
    (hversions : g.types.All fun _ t =>
      t.version = (views.find? fun v => v.externalId = t.name).map ViewVersion.version)
    (hnesting : nesting (tokens g.render.toList) ≤ nestingLimit) :
    load views g.render = .ok g := by
  by_cases hempty : g.types.entries = []
  · obtain rfl : g = ∅ := by
      obtain ⟨types⟩ := g
      exact congrArg Graph.mk (Keyed.ext hempty)
    rfl
  · obtain ⟨ps, hentries, hps⟩ := h.exists_declarations hrules
    have htokens := tokens_render hentries fun p hp => (hps p hp).2
    rw [htokens] at hnesting
    have hne : ps.map Prod.snd ≠ [] := by
      intro hnil
      rw [List.map_eq_nil_iff.1 hnil] at hentries
      exact hempty hentries.symm
    have hregular : ∀ d ∈ ps.map Prod.snd, d.Regular := by
      intro d hd
      obtain ⟨p, hp, rfl⟩ := List.mem_map.1 hd
      exact (hps p hp).2.regular
    have hdocument := document_tokens hne hregular hnesting
    rw [← htokens, List.map_map] at hdocument
    have hload : ∀ p ∈ ps, p.1.2.name = p.1.1 ∧ TypeDef.ofSyntax views p.2 = .ok p.1.2 := by
      intro p hp
      have hkey := ((g.violations_eq_nil_iff.1 hrules) p.1 (hps p hp).1).1
      exact ⟨hkey.symm, (hps p hp).2.ofSyntax_eq_ok (hversions p.1 (hps p hp).1)⟩
    rw [load_of_ofText (Document.ofText_eq_ok hdocument)]
    exact (ofDocument_eq_ok_iff hentries).2 hload

/-- Text parts that came from syntax are read as that syntax again, wherever they stand. -/
theorem parse_render (hrules : g.violations = []) (h : g.Printable)
    (hversions : g.types.All fun _ t => t.version = none)
    (hnesting : nesting (tokens g.render.toList) ≤ nestingLimit) :
    parse [] g.render = .ok g := by
  rw [parse, load_render [] hrules h hversions hnesting]
  exact (validated_eq_ok_iff g g).2 ⟨hrules, rfl⟩

/-- A type without fields before a described one, whose field and directive hold literals. -/
theorem parse_render_blog :
    let literal : Value := .list [.object [("by", .list [.text "a\n\"b\"", .variable "x"]),
      ("kind", .enum "unique")]]
    let first : FieldArgument := ⟨some "[-10]", "first", "[Int!]!"⟩
    let posts : Field := ⟨[first], some "tab\there", [], .make "Post" true true, "posts"⟩
    let unique : Annotation := ⟨Keyed.ofList [("constraints", literal.render)], "container"⟩
    let post : TypeDef :=
      ⟨some "A \"post\"\n\\ of a blog", [unique], Keyed.ofList [("posts", posts)], .object, "Post",
        none⟩
    let g : Graph := ⟨Keyed.ofList [("Node", .make "Node" .interface), ("Post", post)]⟩
    g.violations = [] ∧ g.Printable ∧ (g.types.All fun _ t => t.version = none) ∧
      nesting (tokens g.render.toList) ≤ nestingLimit ∧ parse [] g.render = .ok g := by
  intro literal first posts unique post g
  have hliteral : literal.Regular false := by
    have hsorted : ("by" : String) < "kind" := by decide
    refine .list (List.forall_mem_singleton.2 (.object (List.pairwise_pair.2 hsorted) (by decide)
      ?_))
    refine List.forall_mem_cons.2 ⟨.list ?_, List.forall_mem_singleton.2 (.enum (by decide) rfl)⟩
    exact List.forall_mem_cons.2 ⟨.text _, List.forall_mem_singleton.2 (.var rfl (by decide))⟩
  have hint : isName "Int".toList = true := by decide
  have hfirst : first.Printable := by
    refine ⟨by decide, ⟨.list (.named "Int" true) true, hint, by decide⟩, fun s hs => ?_⟩
    refine ⟨.list [.int (-10)], .list (List.forall_mem_singleton.2 (.int (by decide))), ?_⟩
    exact (Option.some.inj hs) ▸ by decide
  have hunique : unique.Printable :=
    ⟨by decide, Keyed.all_ofList (List.forall_mem_singleton.2 ⟨by decide, literal, hliteral, rfl⟩)⟩
  have hposts : posts.Printable :=
    ⟨by decide, List.forall_mem_singleton.2 hfirst, fun _ hd => absurd hd List.not_mem_nil, rfl⟩
  have hprintable : g.Printable :=
    Keyed.all_ofList (List.forall_mem_cons.2
      ⟨⟨by decide, fun _ hd => absurd hd List.not_mem_nil, Keyed.all_empty⟩,
        List.forall_mem_singleton.2 ⟨by decide, List.forall_mem_singleton.2 hunique,
          Keyed.all_ofList (List.forall_mem_singleton.2 hposts)⟩⟩)
  have hversions : g.types.All fun _ t => t.version = none :=
    Keyed.all_ofList (List.forall_mem_cons.2 ⟨rfl, List.forall_mem_singleton.2 rfl⟩)
  have hrules : g.violations = [] := by decide +kernel
  have hnesting : nesting (tokens g.render.toList) ≤ nestingLimit := by decide +kernel
  exact ⟨hrules, hprintable, hversions, hnesting, parse_render hrules hprintable hversions hnesting⟩

end Graph

end SchemaGraph
