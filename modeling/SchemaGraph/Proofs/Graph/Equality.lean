import Mathlib.Data.List.Forall2
import SchemaGraph.Graph.Equality
import SchemaGraph.Proofs.Graph.Renaming

/-! Graphs that are the same but for the order of their declarations. They have the same types,
fields and arguments under the same keys; and the parts of an edit, which work on what is found
under a key, take graphs that are the same to graphs that are the same. -/

namespace SchemaGraph

/-! What it means to be the same -/

structure Annotation.Alike (d e : Annotation) : Prop where
  arguments : Keyed.Alike Eq d.arguments e.arguments
  name : d.name = e.name

structure Field.Alike (f f' : Field) : Prop where
  arguments : f.arguments = f'.arguments
  description : f.description = f'.description
  directives : List.Forall₂ Annotation.Alike f.directives f'.directives
  type : f.type = f'.type
  name : f.name = f'.name

structure TypeDef.Alike (t u : TypeDef) : Prop where
  description : t.description = u.description
  directives : List.Forall₂ Annotation.Alike t.directives u.directives
  fields : Keyed.Alike Field.Alike t.fields u.fields
  kind : t.kind = u.kind
  name : t.name = u.name
  version : t.version = u.version

def Graph.Alike (g h : Graph) : Prop := Keyed.Alike TypeDef.Alike g.types h.types

theorem Annotation.same_iff {d e : Annotation} : d.same e = true ↔ d.Alike e := by
  unfold Annotation.same
  rw [Bool.and_eq_true, decide_eq_true_iff, Keyed.sameEntries_iff]
  simp only [decide_eq_true_iff]
  exact ⟨fun ⟨hname, harguments⟩ => ⟨harguments, hname⟩, fun h => ⟨h.name, h.arguments⟩⟩

theorem isEqv_iff_forall₂ {ds es : List Annotation} :
    ds.isEqv es Annotation.same = true ↔ List.Forall₂ Annotation.Alike ds es := by
  induction ds generalizing es with
  | nil => cases es <;> simp
  | cons d ds ih =>
    cases es with
    | nil => simp
    | cons e es =>
      rw [List.isEqv_cons_cons, Bool.and_eq_true, List.forall₂_cons, Annotation.same_iff, ih]

theorem Field.same_iff {f f' : Field} : f.same f' = true ↔ f.Alike f' := by
  simp only [Field.same, Bool.and_eq_true, decide_eq_true_iff, isEqv_iff_forall₂]
  constructor
  · rintro ⟨⟨⟨⟨harguments, hdescription⟩, hdirectives⟩, htype⟩, hname⟩
    exact ⟨harguments, hdescription, hdirectives, htype, hname⟩
  · intro h
    exact ⟨⟨⟨⟨h.arguments, h.description⟩, h.directives⟩, h.type⟩, h.name⟩

theorem TypeDef.same_iff {t u : TypeDef} : t.same u = true ↔ t.Alike u := by
  simp only [TypeDef.same, Bool.and_eq_true, decide_eq_true_iff, isEqv_iff_forall₂,
    Keyed.sameEntries_iff, Field.same_iff]
  constructor
  · rintro ⟨⟨⟨⟨⟨hdescription, hdirectives⟩, hfields⟩, hkind⟩, hname⟩, hversion⟩
    exact ⟨hdescription, hdirectives, hfields, hkind, hname, hversion⟩
  · intro h
    exact ⟨⟨⟨⟨⟨h.description, h.directives⟩, h.fields⟩, h.kind⟩, h.name⟩, h.version⟩

theorem Graph.same_iff {g h : Graph} : g.same h = true ↔ g.Alike h := by
  simp only [Graph.same, Keyed.sameEntries_iff, TypeDef.same_iff]
  exact Iff.rfl

theorem Annotation.alike_refl (d : Annotation) : d.Alike d :=
  ⟨Keyed.alike_refl fun _ => rfl, rfl⟩

theorem Annotation.Alike.symm {d e : Annotation} (h : d.Alike e) : e.Alike d :=
  ⟨h.arguments.flip fun _ _ heq => heq.symm, h.name.symm⟩

theorem alike_directives (ds : List Annotation) : List.Forall₂ Annotation.Alike ds ds :=
  List.forall₂_same.2 fun d _ => d.alike_refl

theorem Field.alike_refl (f : Field) : f.Alike f := ⟨rfl, rfl, alike_directives _, rfl, rfl⟩

theorem Field.Alike.symm {f f' : Field} (h : f.Alike f') : f'.Alike f :=
  ⟨h.arguments.symm, h.description.symm, h.directives.flip.imp fun _ _ hd => hd.symm, h.type.symm,
    h.name.symm⟩

theorem TypeDef.alike_refl (t : TypeDef) : t.Alike t :=
  ⟨rfl, alike_directives _, Keyed.alike_refl Field.alike_refl, rfl, rfl, rfl⟩

theorem TypeDef.Alike.symm {t u : TypeDef} (h : t.Alike u) : u.Alike t :=
  ⟨h.description.symm, h.directives.flip.imp fun _ _ hd => hd.symm,
    h.fields.flip fun _ _ hf => hf.symm, h.kind.symm, h.name.symm, h.version.symm⟩

theorem Graph.Alike.symm {g h : Graph} (hs : g.Alike h) : h.Alike g :=
  Keyed.Alike.flip hs fun _ _ ht => ht.symm

/-! Parts of edits -/

theorem alike_mergeOne (d : Annotation) {ds es : List Annotation}
    (h : List.Forall₂ Annotation.Alike ds es) :
    List.Forall₂ Annotation.Alike (mergeOne d ds) (mergeOne d es) := by
  induction h with
  | nil => exact .cons d.alike_refl .nil
  | @cons a b ds es hab htail ih =>
    unfold mergeOne
    rw [hab.name]
    split
    · exact .cons d.alike_refl htail
    · exact .cons hab ih

theorem alike_mergeAnnotations (updates : List Annotation) {ds es : List Annotation}
    (h : List.Forall₂ Annotation.Alike ds es) :
    List.Forall₂ Annotation.Alike (mergeAnnotations ds updates) (mergeAnnotations es updates) := by
  unfold mergeAnnotations
  split
  · exact .nil
  · clear * - h
    induction updates generalizing ds es with
    | nil => exact h
    | cons d updates ih =>
      have hmerged := alike_mergeOne d h
      exact ih hmerged

namespace Field.Alike

variable {f f' : Field} (h : f.Alike f')
include h

theorem isRelation_eq : f.isRelation = f'.isRelation := by
  rw [Field.isRelation, Field.isRelation, h.type]

theorem updated (u : FieldUpdates) : (f.updated u).Alike (f'.updated u) := by
  refine ⟨?_, ?_, ?_, congrArg (fun t => FieldType.updated t u) h.type, h.name⟩
  · exact congrArg u.arguments.getD h.arguments
  · show (u.description.orElse fun _ => f.description) =
      u.description.orElse fun _ => f'.description
    rw [h.description]
  · show List.Forall₂ _ (u.directives.getD f.directives) (u.directives.getD f'.directives)
    cases u.directives with
    | none => exact h.directives
    | some ds => exact alike_directives ds

theorem withName (name : String) :
    Field.Alike { f with name := name } { f' with name := name } :=
  ⟨h.arguments, h.description, h.directives, h.type, rfl⟩

theorem renamed (old new : String) : (f.renamed old new).Alike (f'.renamed old new) := by
  unfold Field.renamed
  rw [h.type]
  split
  · exact ⟨h.arguments, h.description, h.directives, rfl, h.name⟩
  · exact h

end Field.Alike

theorem Keyed.replace_eq {α : Type} (m : Keyed α) (k k' : String) (v : α) :
    m.replace k k' v =
      ofList ((m.modify k fun _ => v).entries.map fun e => (renamedName k k' e.1, e.2)) := by
  unfold replace modify
  rw [List.map_map]
  congr 1
  refine List.map_congr_left fun e _ => ?_
  rw [Function.comp_apply]
  by_cases hk : e.1 = k
  · rw [if_pos hk, if_pos hk, hk, renamedName_self]
  · rw [if_neg hk, if_neg hk, renamedName_of_ne hk]

theorem Keyed.Alike.replace {α β : Type} {R : α → β → Prop} {a : Keyed α} {b : Keyed β}
    (h : Alike R a b) {k k' : String} (hk' : a.contains k' = false) {v : α} {w : β} (hvw : R v w) :
    Alike R (a.replace k k' v) (b.replace k k' w) := by
  have hkeys : (a.modify k fun _ => v).keys = a.keys := keys_modify k _
  have hne : ∀ i ∈ a.keys, i ≠ k' := by
    rintro i hi rfl
    exact contains_eq_false_iff.1 hk' hi
  rw [replace_eq, replace_eq]
  refine (h.modify k fun _ _ _ => hvw).rekeyed (v := id) (w := id) ?_ fun _ _ hR => hR
  rw [hkeys]
  exact fun i hi j hj => renamedName_inj (hne i hi) (hne j hj)

namespace TypeDef.Alike

variable {t u : TypeDef} (h : t.Alike u)
include h

theorem isInline_eq : t.isInline = u.isInline := by
  have hany : ∀ {ds es : List Annotation}, List.Forall₂ Annotation.Alike ds es →
      (ds.any fun d => d.name = inlineDirective) = es.any fun d => d.name = inlineDirective := by
    intro ds es hds
    induction hds with
    | nil => rfl
    | cons hd _ ih => rw [List.any_cons, List.any_cons, ih, hd.name]
  exact hany h.directives

theorem withFields {fields fields' : Keyed Field}
    (hfields : Keyed.Alike Field.Alike fields fields') :
    TypeDef.Alike { t with fields := fields } { u with fields := fields' } :=
  ⟨h.description, h.directives, hfields, h.kind, h.name, h.version⟩

theorem withName (name : String) :
    TypeDef.Alike { t with name := name } { u with name := name } :=
  ⟨h.description, h.directives, h.fields, h.kind, rfl, h.version⟩

theorem dropReferences (name : String) : (t.dropReferences name).Alike (u.dropReferences name) :=
  h.withFields (h.fields.filterValues fun f f' hf => by rw [hf.type])

theorem renamed (old new : String) : (t.renamed old new).Alike (u.renamed old new) :=
  ⟨h.description, h.directives, h.fields.mapValues fun _ _ hf => hf.renamed old new, h.kind,
    congrArg (renamedName old new) h.name, h.version⟩

theorem updated (v : TypeUpdates) : (t.updated v).Alike (u.updated v) := by
  refine ⟨?_, ?_, h.fields, h.kind, h.name, h.version⟩
  · show (v.description.orElse fun _ => t.description) = v.description.orElse fun _ => u.description
    rw [h.description]
  · unfold TypeDef.updated
    cases v.directives with
    | none => exact h.directives
    | some ds => exact alike_mergeAnnotations ds h.directives

end TypeDef.Alike

end SchemaGraph
