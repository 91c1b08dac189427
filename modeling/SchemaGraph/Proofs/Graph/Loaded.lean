import SchemaGraph.Graph.Loading
import SchemaGraph.Proofs.Keyed

/-! Declarations and what they are loaded as. -/

namespace SchemaGraph

abbrev Declared (α δ : Type) : Type := (String × α) × δ

section Declared

variable {α δ : Type} {m : Keyed α} {ps : List (Declared α δ)}
  (h : ps.map Prod.fst = m.entries)
include h

theorem nodup_declared : ((∅ : Keyed α).keys ++ ps.map (·.1.1)).Nodup := by
  have hnodup := m.nodup
  rw [← h, List.map_map] at hnodup
  exact hnodup

theorem values_declared : m.values = ps.map (·.1.2) := by
  unfold Keyed.values
  rw [← h, List.map_map]
  rfl

end Declared

theorem TypeDef.addFields_eq_ok {typeName : String}
    {ps : List (Declared Field Sdl.FieldDeclaration)} {fields : Keyed Field}
    (hload : ∀ p ∈ ps, p.2.name = p.1.1 ∧ Field.ofSyntax typeName p.2 = .ok p.1.2)
    (hdistinct : (fields.keys ++ ps.map (·.1.1)).Nodup) :
    ∃ all, addFields typeName fields (ps.map Prod.snd) = .ok all ∧
      all.entries = fields.entries ++ ps.map Prod.fst := by
  induction ps generalizing fields with
  | nil => exact ⟨fields, rfl, by simp⟩
  | cons p ps ih =>
    obtain ⟨hname, hfield⟩ := hload p List.mem_cons_self
    have hnew := Keyed.not_mem_keys_of_nodup hdistinct
    have hrest : ((fields.insert p.1.1 p.1.2).keys ++ ps.map (·.1.1)).Nodup := by
      rw [Keyed.keys_insert_of_not_mem hnew]
      simpa using hdistinct
    obtain ⟨all, hall, hentries⟩ := ih (fun q hq => hload q (List.mem_cons_of_mem _ hq)) hrest
    refine ⟨all, ?_, ?_⟩
    · rw [List.map_cons, addFields, hname, Keyed.contains_eq_false_iff.2 hnew,
        if_neg Bool.false_ne_true, hfield]
      exact hall
    · rw [hentries, Keyed.entries_insert_of_not_mem _ _ _ hnew]
      simp

theorem eq_of_map_fst_of_map_snd {α δ : Type} {ps qs : List (Declared α δ)}
    (hfst : ps.map Prod.fst = qs.map Prod.fst) (hsnd : ps.map Prod.snd = qs.map Prod.snd) :
    ps = qs := by
  rw [← List.zip_unzip ps, ← List.zip_unzip qs, List.unzip_eq_map, List.unzip_eq_map, hfst, hsnd]

theorem TypeDef.exists_declared_of_addFields {typeName : String}
    {ds : List Sdl.FieldDeclaration} {fields all : Keyed Field}
    (h : addFields typeName fields ds = .ok all) :
    ∃ ps : List (Declared Field Sdl.FieldDeclaration), ps.map Prod.snd = ds ∧
      all.entries = fields.entries ++ ps.map Prod.fst ∧
      ∀ p ∈ ps, p.2.name = p.1.1 ∧ Field.ofSyntax typeName p.2 = .ok p.1.2 := by
  fun_induction addFields typeName fields ds with
  | case1 fields =>
    cases h
    exact ⟨[], rfl, by simp, fun _ hp => absurd hp List.not_mem_nil⟩
  | case2 | case3 => cases h
  | case4 fields d ds hnew f hf ih =>
    obtain ⟨ps, hds, hentries, hload⟩ := ih h
    refine ⟨((d.name, f), d) :: ps, by rw [List.map_cons, hds], ?_,
      List.forall_mem_cons.2 ⟨⟨rfl, hf⟩, hload⟩⟩
    have hfresh := Keyed.contains_eq_false_iff.1 (Bool.eq_false_iff.2 hnew)
    rw [hentries, Keyed.entries_insert_of_not_mem _ _ _ hfresh]
    simp

theorem TypeDef.addFields_eq_ok_iff {typeName : String}
    {ps : List (Declared Field Sdl.FieldDeclaration)} {fields : Keyed Field}
    (h : ps.map Prod.fst = fields.entries) :
    addFields typeName ∅ (ps.map Prod.snd) = .ok fields ↔
      ∀ p ∈ ps, p.2.name = p.1.1 ∧ Field.ofSyntax typeName p.2 = .ok p.1.2 := by
  constructor
  · intro hfields
    obtain ⟨qs, hds, hentries, hload⟩ := exists_declared_of_addFields hfields
    have hsame : ps = qs := eq_of_map_fst_of_map_snd (h.trans hentries) hds.symm
    rwa [hsame]
  · intro hload
    obtain ⟨all, hall, hentries⟩ := addFields_eq_ok hload (nodup_declared h)
    rw [hall, Keyed.ext (hentries.trans h)]

theorem TypeDef.ofSyntax_eq_ok_iff {views : List ViewVersion} {d : Sdl.TypeDeclaration}
    {t : TypeDef} : ofSyntax views d = .ok t ↔
      addFields d.name ∅ d.fields = .ok t.fields ∧ d.description = t.description ∧
        d.directives.map Annotation.ofSyntax = t.directives ∧ d.kind = t.kind ∧
        d.name = t.name ∧
        (views.find? fun v => v.externalId = d.name).map ViewVersion.version = t.version := by
  unfold ofSyntax
  rcases addFields d.name ∅ d.fields with e | fields
  · simp
  · rw [Except.ok.injEq, Except.ok.injEq, TypeDef.mk.injEq]
    constructor
    · rintro ⟨hdescription, hdirectives, hfields, hrest⟩
      exact ⟨hfields, hdescription, hdirectives, hrest⟩
    · rintro ⟨hfields, hdescription, hdirectives, hrest⟩
      exact ⟨hdescription, hdirectives, hfields, hrest⟩

theorem Graph.addDefinitions_eq_ok {views : List ViewVersion}
    {ps : List (Declared TypeDef Sdl.TypeDeclaration)} {types : Keyed TypeDef}
    (hload : ∀ p ∈ ps, p.1.2.name = p.1.1 ∧ TypeDef.ofSyntax views p.2 = .ok p.1.2)
    (hdistinct : (types.keys ++ ps.map (·.1.1)).Nodup) :
    ∃ all, addDefinitions views types (ps.map fun p => .type p.2) = .ok all ∧
      all.entries = types.entries ++ ps.map Prod.fst := by
  induction ps generalizing types with
  | nil => exact ⟨types, rfl, by simp⟩
  | cons p ps ih =>
    obtain ⟨hname, htype⟩ := hload p List.mem_cons_self
    have hnew := Keyed.not_mem_keys_of_nodup hdistinct
    have hrest : ((types.insert p.1.1 p.1.2).keys ++ ps.map (·.1.1)).Nodup := by
      rw [Keyed.keys_insert_of_not_mem hnew]
      simpa using hdistinct
    obtain ⟨all, hall, hentries⟩ := ih (fun q hq => hload q (List.mem_cons_of_mem _ hq)) hrest
    refine ⟨all, ?_, ?_⟩
    · rw [List.map_cons, addDefinitions, htype]
      simp only [hname, Keyed.contains_eq_false_iff.2 hnew, if_neg Bool.false_ne_true]
      exact hall
    · rw [hentries, Keyed.entries_insert_of_not_mem _ _ _ hnew]
      simp

def Sdl.declarations (ds : Sdl.Document) : List Sdl.TypeDeclaration :=
  ds.filterMap fun
    | .type d => some d
    | _ => none

theorem Sdl.mem_declarations {ds : Sdl.Document} {d : Sdl.TypeDeclaration} :
    d ∈ declarations ds ↔ .type d ∈ ds := by
  rw [declarations, List.mem_filterMap]
  constructor
  · rintro ⟨d', hmem, hkept⟩
    cases d' with
    | type d' =>
      cases hkept
      exact hmem
    | _ => cases hkept
  · intro hmem
    exact ⟨.type d, hmem, rfl⟩

theorem Graph.exists_declared_of_addDefinitions {views : List ViewVersion} {ds : Sdl.Document}
    {types all : Keyed TypeDef} (h : addDefinitions views types ds = .ok all) :
    ∃ ps : List (Declared TypeDef Sdl.TypeDeclaration), ps.map Prod.snd = Sdl.declarations ds ∧
      all.entries = types.entries ++ ps.map Prod.fst ∧
      ∀ p ∈ ps, p.1.2.name = p.1.1 ∧ TypeDef.ofSyntax views p.2 = .ok p.1.2 := by
  fun_induction addDefinitions views types ds with
  | case1 types =>
    cases h
    exact ⟨[], rfl, by simp, fun _ hp => absurd hp List.not_mem_nil⟩
  | case2 | case3 => cases h
  | case4 types d ds t ht hnew ih =>
    obtain ⟨ps, hds, hentries, hload⟩ := ih h
    refine ⟨((t.name, t), d) :: ps, ?_, ?_, List.forall_mem_cons.2 ⟨⟨rfl, ht⟩, hload⟩⟩
    · rw [List.map_cons, hds]
      rfl
    · have hfresh := Keyed.contains_eq_false_iff.1 (Bool.eq_false_iff.2 hnew)
      rw [hentries, Keyed.entries_insert_of_not_mem _ _ _ hfresh]
      simp
  | case5 types d ds hpassed ih =>
    obtain ⟨ps, hds, hps⟩ := ih h
    refine ⟨ps, hds.trans ?_, hps⟩
    cases d with
    | type d => exact (hpassed d rfl).elim
    | _ => rfl

theorem Graph.exists_declared {views : List ViewVersion} {ds : Sdl.Document} {g : Graph}
    (h : ofDocument views ds = .ok g) :
    ∃ ps : List (Declared TypeDef Sdl.TypeDeclaration), ps.map Prod.snd = Sdl.declarations ds ∧
      ps.map Prod.fst = g.types.entries ∧
      ∀ p ∈ ps, p.1.2.name = p.1.1 ∧ TypeDef.ofSyntax views p.2 = .ok p.1.2 := by
  unfold ofDocument at h
  rcases hall : addDefinitions views ∅ ds with e | all
  · rw [hall] at h
    cases h
  · rw [hall] at h
    cases h
    obtain ⟨ps, hds, hentries, hload⟩ := exists_declared_of_addDefinitions hall
    exact ⟨ps, hds, hentries.symm, hload⟩

theorem Graph.ofDocument_eq_ok_iff {views : List ViewVersion} {g : Graph}
    {ps : List (Declared TypeDef Sdl.TypeDeclaration)} (h : ps.map Prod.fst = g.types.entries) :
    ofDocument views (ps.map fun p => .type p.2) = .ok g ↔
      ∀ p ∈ ps, p.1.2.name = p.1.1 ∧ TypeDef.ofSyntax views p.2 = .ok p.1.2 := by
  constructor
  · intro hdocument
    obtain ⟨qs, hds, hentries, hload⟩ := exists_declared hdocument
    -- Nothing is dropped from a document of types, so the pairs are those it was loaded as.
    have hkept : Sdl.declarations (ps.map fun p => .type p.2) = ps.map Prod.snd := by
      rw [Sdl.declarations, List.filterMap_map]
      exact congrFun (List.filterMap_eq_map (f := Prod.snd)) ps
    have hsame : ps = qs :=
      eq_of_map_fst_of_map_snd (h.trans hentries.symm) (hkept.symm.trans hds.symm)
    rwa [hsame]
  · intro hload
    obtain ⟨all, hall, hentries⟩ := addDefinitions_eq_ok hload (nodup_declared h)
    rw [ofDocument, hall, Keyed.ext (hentries.trans h)]
    rfl

namespace Graph

variable {views : List ViewVersion} {s : String} {g : Graph}

theorem parse_eq_ok_iff : parse views s = .ok g ↔ load views s = .ok g ∧ g.violations = [] := by
  unfold parse
  rcases load views s with e | g'
  · simp
  · rw [validated_eq_ok_iff, Except.ok.injEq]
    constructor
    · rintro ⟨hrules, rfl⟩
      exact ⟨rfl, hrules⟩
    · rintro ⟨rfl, hrules⟩
      exact ⟨hrules, rfl⟩

theorem exists_document_of_load (h : load views s = .ok g) :
    (Text.isAllBlank s = true ∧ g = ∅) ∨
      ∃ ds, Sdl.Document.ofText s.toList = .ok ds ∧ ofDocument views ds = .ok g := by
  unfold load at h
  split at h
  · cases h
    exact .inl ⟨by assumption, rfl⟩
  · split at h
    · exact .inr ⟨_, by assumption, h⟩
    · cases h

end Graph

end SchemaGraph
