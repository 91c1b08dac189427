import SchemaGraph.Proofs.Graph.FieldEdits

/-! Updates of a field, which may get another name. The field stays in its place among those of its
type, and nothing else moves. Whether the update is allowed can be told from the field and its type,
without the rest of the graph that the rules are about. -/

namespace SchemaGraph

/-! An entry under another key -/

namespace Keyed

variable {α : Type} {m : Keyed α} {k k' : String} {v w : α}

def Vacant (m : Keyed α) (k k' : String) : Prop := k' = k ∨ k' ∉ m.keys

theorem entries_replace (h : m.Vacant k k') (v : α) : (m.replace k k' v).entries =
    m.entries.map fun e => if e.1 = k then (k', v) else e := by
  have hkeys : (m.entries.map fun e => if e.1 = k then (k', v) else e).map Prod.fst =
      m.keys.map (renamedName k k') := by
    rw [keys, List.map_map, List.map_map]
    refine List.map_congr_left fun e _ => ?_
    simp only [Function.comp_apply, renamedName]
    split <;> rfl
  refine entries_ofList _ (hkeys ▸ List.Nodup.map_on ?_ m.nodup)
  rcases h with rfl | hfresh
  · intro a _ b _ hab
    rwa [renamedName_same, renamedName_same] at hab
  · have hne : ∀ {a}, a ∈ m.keys → a ≠ k' := fun ha heq => hfresh (heq ▸ ha)
    exact fun a ha b hb => renamedName_inj (hne ha) (hne hb)

theorem insert_eq_replace (h : k ∈ m.keys) (v : α) : m.insert k v = m.replace k k v := by
  have hmodify : m.replace k k v = m.modify k fun _ => v := by
    apply Keyed.ext
    rw [entries_replace (.inl rfl)]
    refine List.map_congr_left fun e _ => ?_
    split
    · rename_i hk
      rw [hk]
    · rfl
  rw [hmodify]
  refine eq_of_get? (by rw [keys_insert, if_pos h, keys_modify]) fun i => ?_
  rw [get?_insert, get?_modify]
  split
  · rename_i hi
    obtain ⟨u, hu⟩ := exists_get?_of_mem_keys h
    rw [hi, hu]
    rfl
  · rfl

theorem all_replace_iff {P : String → α → Prop} (hm : m.All P) (hk : k ∈ m.keys)
    (h : m.Vacant k k') : (m.replace k k' v).All P ↔ P k' v := by
  refine ⟨fun hall => ?_, hm.replace⟩
  obtain ⟨u, hu⟩ := exists_get?_of_mem_keys hk
  have hmem : (k', v) ∈ (m.replace k k' v).entries := by
    rw [entries_replace h]
    exact List.mem_map.2 ⟨(k, u), mem_entries_of_get? hu, if_pos rfl⟩
  exact hall _ hmem

theorem get?_replace_self (hk : k ∈ m.keys) (h : m.Vacant k k') (v : α) :
    (m.replace k k' v).get? k' = some v := by
  obtain ⟨u, hu⟩ := exists_get?_of_mem_keys hk
  refine get?_eq_some_iff.2 ?_
  rw [entries_replace h]
  exact List.mem_map.2 ⟨(k, u), mem_entries_of_get? hu, if_pos rfl⟩

theorem vacant_replace (h : m.Vacant k k') : (m.replace k k' v).Vacant k' k := by
  by_cases hsame : k = k'
  · exact .inl hsame
  · refine .inr fun hmem => ?_
    obtain ⟨e, he, hek⟩ := List.mem_map.1 hmem
    rw [entries_replace h] at he
    obtain ⟨a, -, rfl⟩ := List.mem_map.1 he
    split at hek
    · exact hsame hek.symm
    · exact absurd hek ‹_›

theorem replace_replace (hv : m.get? k = some v) (h : m.Vacant k k') :
    (m.replace k k' w).replace k' k v = m := by
  apply Keyed.ext
  rw [entries_replace (vacant_replace h), entries_replace h, List.map_map]
  refine (List.map_congr_left fun e he => ?_).trans (List.map_id _)
  rw [Function.comp_apply]
  by_cases hek : e.1 = k
  · have hvalue : some v = some e.2 := hv.symm.trans (hek ▸ get?_of_mem_entries he)
    rw [if_pos hek, if_pos rfl, Option.some.inj hvalue, ← hek]
    rfl
  · have hek' : e.1 ≠ k' := by
      rintro heq
      rcases h with hsame | hfresh
      · exact hek (heq.trans hsame)
      · exact hfresh (heq ▸ List.mem_map_of_mem he)
    rw [if_neg hek, if_neg hek']
    rfl

end Keyed

/-! The field -/

/-- Of the field that becomes `f'` only what the update gives is changed. The mark of a custom type
goes with the name of the type. -/
structure FieldUpdates.Turns (u : FieldUpdates) (f f' : Field) : Prop where
  arguments : f'.arguments = u.arguments.getD f.arguments
  description : f'.description = u.description.or f.description
  directives : f'.directives = u.directives.getD f.directives
  name : f'.name = u.name.getD f.name
  typeName : f'.type.name = u.typeName.getD f.type.name
  isList : f'.type.isList = u.isList.getD f.type.isList
  isNonNull : f'.type.isNonNull = u.isNonNull.getD f.type.isNonNull
  isCustom : f'.type.isCustom =
    (u.typeName.map fun name => !Builtin.isScalar name).getD f.type.isCustom

theorem FieldType.updated_eq (t : FieldType) (u : FieldUpdates) : t.updated u =
    { isCustom := (u.typeName.map fun name => !Builtin.isScalar name).getD t.isCustom
      isList := u.isList.getD t.isList
      isNonNull := u.isNonNull.getD t.isNonNull
      name := u.typeName.getD t.name } := by
  unfold FieldType.updated
  cases u.typeName <;> rfl

def Field.edited (f : Field) (u : FieldUpdates) : Field :=
  { f.updated u with name := u.name.getD f.name }

namespace FieldUpdates

variable {u : FieldUpdates} {f f' : Field}

theorem turns_iff : u.Turns f f' ↔ f' = f.edited u := by
  obtain ⟨arguments, description, directives, ⟨isCustom, isList, isNonNull, typeName⟩, name⟩ := f'
  have hdescription : (u.description.orElse fun _ => f.description) =
      u.description.or f.description := by
    cases u.description <;> rfl
  simp only [Field.edited, Field.updated, FieldType.updated_eq, hdescription, Field.mk.injEq,
    FieldType.mk.injEq]
  constructor
  · rintro ⟨hargs, hdesc, hdirs, hname, htype, hlist, hnonNull, hcustom⟩
    exact ⟨hargs, hdesc, hdirs, ⟨hcustom, hlist, hnonNull, htype⟩, hname⟩
  · rintro ⟨hargs, hdesc, hdirs, ⟨hcustom, hlist, hnonNull, htype⟩, hname⟩
    exact ⟨hargs, hdesc, hdirs, hname, htype, hlist, hnonNull, hcustom⟩

def named (name : String) : FieldUpdates := ⟨none, none, none, none, none, some name, none⟩

theorem edited_named (f : Field) (name : String) :
    f.edited (named name) = { f with name := name } := rfl

end FieldUpdates

namespace Graph

variable {g g' : Graph} {typeName fieldName : String} {t : TypeDef} {u : FieldUpdates} {f : Field}

/-! The type the field is in -/

theorem type?_setFields (fields : Keyed Field) (name : String) :
    (g.setFields typeName fields).type? name = if name = typeName then
      (g.type? name).map fun t => { t with fields := fields }
    else g.type? name :=
  Keyed.get?_modify ..

theorem resolves_setFields (fields : Keyed Field) (name : String) :
    (g.setFields typeName fields).resolves name = g.resolves name := by
  have hhas : (g.setFields typeName fields).hasType name = g.hasType name := by
    show ((g.setFields typeName fields).type? name).isSome = (g.type? name).isSome
    rw [type?_setFields]
    split
    · exact Option.isSome_map
    · rfl
  rw [resolves, resolves, hhas]

/-- No field is wrong because of one elsewhere, so the rules are about the new fields alone. -/
theorem rules_setFields_iff (hrules : g.violations = []) (ht : g.type? typeName = some t)
    {fields : Keyed Field} : (g.setFields typeName fields).violations = [] ↔
      fields.All fun key f => key = f.name ∧ g.resolves f.type.name = true ∧
        (t.isInline && f.isRelation && f.type.isList) = false := by
  rw [violations_eq_nil_iff] at hrules ⊢
  simp only [resolves_setFields]
  constructor
  · intro h
    have hset : (g.setFields typeName fields).type? typeName =
        some { t with fields := fields } := by
      rw [type?_setFields, if_pos rfl, ht]
      rfl
    exact (h.get? hset).2
  · intro h
    refine Keyed.all_iff_get?.2 fun name t' ht' => ?_
    change (g.setFields typeName fields).type? name = some t' at ht'
    rw [type?_setFields] at ht'
    split at ht'
    · rename_i hname
      subst hname
      rw [ht] at ht'
      cases ht'
      exact ⟨(hrules.get? ht).1, h⟩
    · exact hrules.get? ht'

theorem field_name_eq (hrules : g.violations = []) (ht : g.type? typeName = some t)
    (hf : t.field? fieldName = some f) : f.name = fieldName :=
  ((((violations_eq_nil_iff g).1 hrules).get? ht).2.get? hf).1.symm

theorem setFields_setFields (ht : g.type? typeName = some t) (fields : Keyed Field) :
    (g.setFields typeName fields).setFields typeName t.fields = g := by
  refine congrArg Graph.mk (Keyed.eq_of_get? ?_ fun name => ?_)
  · rw [Keyed.keys_modify, setFields, Keyed.keys_modify]
  · show ((g.setFields typeName fields).setFields typeName t.fields).type? name = g.type? name
    rw [type?_setFields, type?_setFields]
    split
    · rename_i hname
      rw [hname, ht]
      rfl
    · rfl

/-! The update -/

def NameFree (t : TypeDef) (fieldName : String) (newName : Option String) : Prop :=
  ∀ new, newName = some new → new ≠ fieldName → ValidName new ∧ t.fields.contains new = false

structure Allows (g : Graph) (t : TypeDef) (fieldName : String) (u : FieldUpdates) (f' : Field) :
    Prop where
  resolves : ∀ r, u.typeName = some r → g.resolves r = true
  name : NameFree t fieldName u.name
  embeddable : ¬(t.isInline = true ∧ f'.isRelation = true ∧ f'.type.isList = true)

section There

variable (hf : t.field? fieldName = some f) (hkey : f.name = fieldName)
include hkey

theorem NameFree.vacant (h : NameFree t fieldName u.name) :
    t.fields.Vacant fieldName (f.edited u).name := by
  show t.fields.Vacant fieldName (u.name.getD f.name)
  cases hname : u.name with
  | none => exact .inl hkey
  | some new =>
    by_cases hsame : new = fieldName
    · exact .inl hsame
    · exact .inr (Keyed.contains_eq_false_iff.1 (h new hname hsame).2)

include hf

theorem placeField_eq_ok_iff_replace (fields : Keyed Field) :
    t.placeField typeName fieldName u.name (f.updated u) = .ok fields ↔
      NameFree t fieldName u.name ∧
        t.fields.replace fieldName (f.edited u).name (f.edited u) = fields := by
  have hstays : f.updated u = { f.updated u with name := fieldName } := hkey ▸ rfl
  have hedited : f.edited u = { f.updated u with name := u.name.getD fieldName } := hkey ▸ rfl
  rw [t.placeField_eq_ok_iff, Keyed.insert_eq_replace (Keyed.mem_keys_of_get? hf), hedited,
    NameFree]
  cases u.name with
  | none => simp [← hstays]
  | some new =>
    by_cases hsame : new = fieldName
    · simp [hsame, ← hstays]
    · simp [hsame, isValidName_iff, and_assoc]

end There

theorem resolves_edited (hknown : g.resolves f.type.name = true)
    (hresolves : ∀ r, u.typeName = some r → g.resolves r = true) :
    g.resolves (f.edited u).type.name = true := by
  rw [(FieldUpdates.turns_iff.2 rfl : u.Turns f (f.edited u)).typeName]
  cases hr : u.typeName with
  | none => exact hknown
  | some r => exact hresolves r hr

theorem rules_replace_iff (hrules : g.violations = []) (ht : g.type? typeName = some t)
    (hf : t.field? fieldName = some f) (hname : NameFree t fieldName u.name)
    (hresolves : ∀ r, u.typeName = some r → g.resolves r = true) :
    (g.setFields typeName
        (t.fields.replace fieldName (f.edited u).name (f.edited u))).violations = [] ↔
      ¬(t.isInline = true ∧ (f.edited u).isRelation = true ∧
        (f.edited u).type.isList = true) := by
  have hfields := (((violations_eq_nil_iff g).1 hrules).get? ht).2
  obtain ⟨hkey, hknown, -⟩ := hfields.get? hf
  rw [rules_setFields_iff hrules ht, Keyed.all_replace_iff hfields (Keyed.mem_keys_of_get? hf)
    (hname.vacant hkey.symm), ← Bool.not_eq_true, Bool.and_eq_true, Bool.and_eq_true, and_assoc]
  exact ⟨fun h => h.2.2, fun h => ⟨rfl, resolves_edited hknown hresolves, h⟩⟩

theorem updateField_eq_ok_iff_replace (hrules : g.violations = []) :
    g.updateField typeName fieldName u = .ok g' ↔ ∃ t f, g.type? typeName = some t ∧
      t.field? fieldName = some f ∧ g.Allows t fieldName u (f.edited u) ∧
        g.setFields typeName
          (t.fields.replace fieldName (f.edited u).name (f.edited u)) = g' := by
  rw [updateField_eq_ok_iff]
  constructor
  · rintro ⟨t, f, fields, ht, hf, hresolves, hplace, hset, rfl⟩
    have hkey := field_name_eq hrules ht hf
    obtain ⟨hname, rfl⟩ := (placeField_eq_ok_iff_replace hf hkey fields).1 hplace
    have hembeddable := (rules_replace_iff hrules ht hf hname hresolves).1 hset
    exact ⟨t, f, ht, hf, ⟨hresolves, hname, hembeddable⟩, rfl⟩
  · rintro ⟨t, f, ht, hf, ⟨hresolves, hname, hembeddable⟩, rfl⟩
    have hkey := field_name_eq hrules ht hf
    have hset := (rules_replace_iff hrules ht hf hname hresolves).2 hembeddable
    exact ⟨t, f, _, ht, hf, hresolves,
      (placeField_eq_ok_iff_replace hf hkey _).2 ⟨hname, rfl⟩, hset, rfl⟩

structure UpdatedIn (g g' : Graph) (typeName fieldName : String) (u : FieldUpdates) : Prop where
  typeNames : g'.typeNames = g.typeNames
  others : ∀ name, name ≠ typeName → g'.type? name = g.type? name
  fields : ∃ t f f' fields, g.type? typeName = some t ∧ t.field? fieldName = some f ∧
    u.Turns f f' ∧ f'.name = u.name.getD fieldName ∧
      g'.type? typeName = some { t with fields } ∧
        fields.entries = t.fields.entries.map fun e =>
          if e.1 = fieldName then (f'.name, f') else e

/-- When a field can be updated and what that changes; an update of the name can be taken back. -/
structure UpdatesPrecisely (g : Graph) : Prop where
  updates_iff : ∀ typeName fieldName u, (∃ g', g.updateField typeName fieldName u = .ok g') ↔
    ∃ t f f', g.type? typeName = some t ∧ t.field? fieldName = some f ∧ u.Turns f f' ∧
      g.Allows t fieldName u f'
  updated : ∀ typeName fieldName u g', g.updateField typeName fieldName u = .ok g' →
    g.UpdatedIn g' typeName fieldName u
  back : ∀ typeName fieldName new g', ValidName fieldName →
    g.updateField typeName fieldName (.named new) = .ok g' →
      g'.updateField typeName new (.named fieldName) = .ok g

theorem updatedIn_setFields (hrules : g.violations = []) (ht : g.type? typeName = some t)
    (hf : t.field? fieldName = some f) (hname : NameFree t fieldName u.name) :
    g.UpdatedIn (g.setFields typeName
      (t.fields.replace fieldName (f.edited u).name (f.edited u))) typeName fieldName u where
  typeNames := Keyed.keys_modify ..
  others name hne := by rw [type?_setFields, if_neg hne]
  fields := by
    have hkey := field_name_eq hrules ht hf
    refine ⟨t, f, f.edited u, _, ht, hf, FieldUpdates.turns_iff.2 rfl, hkey ▸ rfl, ?_,
      Keyed.entries_replace (hname.vacant hkey) _⟩
    rw [type?_setFields, if_pos rfl, ht]
    rfl

theorem updateField_named_back (hrules : g.violations = []) {new : String}
    (hvalid : ValidName fieldName)
    (h : g.updateField typeName fieldName (.named new) = .ok g') :
    g'.updateField typeName new (.named fieldName) = .ok g := by
  have hedit : g.apply (.updateField typeName fieldName (.named new)) = .ok g' := h
  have hrules' : g'.violations = [] := rules_of_checksRules rfl hedit
  obtain ⟨t, f, ht, hf, hallows, rfl⟩ := (updateField_eq_ok_iff_replace hrules).1 h
  have hkey : f.name = fieldName := field_name_eq hrules ht hf
  have hvacant : t.fields.Vacant fieldName new := hallows.name.vacant hkey
  have hembeddable : ¬(t.isInline = true ∧ f.isRelation = true ∧ f.type.isList = true) :=
    hallows.embeddable
  -- The field gets its old name, and is what it was.
  have hback : ({ f with name := new } : Field).edited (.named fieldName) = f := hkey ▸ rfl
  simp only [FieldUpdates.edited_named] at hrules' ⊢
  generalize ({ f with name := new } : Field) = f' at *
  refine (updateField_eq_ok_iff_replace hrules').2
    ⟨{ t with fields := t.fields.replace fieldName new f' }, f', ?_, ?_, ?_, ?_⟩
  · rw [type?_setFields, if_pos rfl, ht]
    rfl
  · exact Keyed.get?_replace_self (Keyed.mem_keys_of_get? hf) hvacant _
  · rw [hback]
    refine ⟨nofun, ?_, hembeddable⟩
    rintro _ ⟨⟩ hne
    refine ⟨hvalid, Keyed.contains_eq_false_iff.2 ?_⟩
    exact (Keyed.vacant_replace hvacant).resolve_left hne
  · rw [hback, hkey, Keyed.replace_replace hf hvacant, setFields_setFields ht]

theorem updatesPrecisely (hrules : g.violations = []) : g.UpdatesPrecisely where
  updates_iff typeName fieldName u := by
    constructor
    · rintro ⟨g', h⟩
      obtain ⟨t, f, ht, hf, hallows, -⟩ := (updateField_eq_ok_iff_replace hrules).1 h
      exact ⟨t, f, f.edited u, ht, hf, FieldUpdates.turns_iff.2 rfl, hallows⟩
    · rintro ⟨t, f, f', ht, hf, hturns, hallows⟩
      obtain rfl := FieldUpdates.turns_iff.1 hturns
      exact ⟨_, (updateField_eq_ok_iff_replace hrules).2 ⟨t, f, ht, hf, hallows, rfl⟩⟩
  updated typeName fieldName u g' h := by
    obtain ⟨t, f, ht, hf, hallows, rfl⟩ := (updateField_eq_ok_iff_replace hrules).1 h
    exact updatedIn_setFields hrules ht hf hallows.name
  back _ _ _ _ hvalid h := updateField_named_back hrules hvalid h

/-- The second of three fields gets another name and its own back, and never that of the third. -/
theorem updatesPrecisely_of_renamed_body :
    let post := (((TypeDef.make "Post" .object).withField
      (.make "title" (.make "String" false true))).withField
        (.make "body" (.make "String" false false))).withField
          (.make "related" (.make "Post" true false))
    let g : Graph := ⟨Keyed.ofList [("Post", post)]⟩
    g.violations = [] ∧ g.UpdatesPrecisely ∧
      (∃ g', g.updateField "Post" "body" (.named "text") = .ok g' ∧
        (g'.type? "Post").map (fun t => t.fields.keys) = some ["title", "text", "related"] ∧
          g'.updateField "Post" "text" (.named "body") = .ok g) ∧
        ¬∃ g', g.updateField "Post" "body" (.named "related") = .ok g' := by
  intro post g
  have hrules : g.violations = [] := by decide +kernel
  have hprecise := updatesPrecisely hrules
  have hkeys : (g.updateField "Post" "body" (.named "text")).toOption.map
      (fun g' => (g'.type? "Post").map fun t => t.fields.keys) =
        some (some ["title", "text", "related"]) := by
    decide +kernel
  obtain ⟨g', h, hafter⟩ := exists_eq_ok_of_map hkeys
  have hvalid : ValidName "body" := (isValidName_iff _).1 (by decide +kernel)
  refine ⟨hrules, hprecise, ⟨g', h, hafter, hprecise.back _ _ _ _ hvalid h⟩, fun htaken => ?_⟩
  obtain ⟨t, f, f', ht, -, -, hallows⟩ := (hprecise.updates_iff ..).1 htaken
  obtain rfl : post = t := Option.some.inj ht
  exact absurd (hallows.name "related" rfl (by decide)).2 (by decide +kernel)

end Graph

end SchemaGraph
