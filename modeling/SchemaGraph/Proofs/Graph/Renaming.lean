import SchemaGraph.Proofs.Graph.Invariant
import SchemaGraph.Proofs.Graph.Relations
import SchemaGraph.Proofs.Keyed.Lookup

/-! Types under other names. A name that nothing refers to can be given to a type and taken from it
again without a trace: what is done next to the type leads to the same graph as before, down to the
order of all declarations. -/

namespace SchemaGraph

/-! New names for old ones -/

def renamedName (old new name : String) : String := if name = old then new else name

def Field.renamed (old new : String) (f : Field) : Field :=
  if f.type.name = old then { f with type := f.type.withName new } else f

def TypeDef.renamed (old new : String) (t : TypeDef) : TypeDef :=
  { t with name := renamedName old new t.name }.renameReferences old new

section Names

variable {old mid new : String}

theorem renamedName_of_ne {name : String} (h : name ≠ old) : renamedName old new name = name :=
  if_neg h

theorem renamedName_self : renamedName old new old = new := if_pos rfl

theorem renamedName_inj {a b : String} (ha : a ≠ new) (hb : b ≠ new)
    (h : renamedName old new a = renamedName old new b) : a = b := by
  unfold renamedName at h
  split at h
  · split at h
    · simp_all
    · exact absurd h.symm hb
  · split at h
    · exact absurd h ha
    · exact h

theorem renamedName_renamedName {name : String} (h : name ≠ mid) :
    renamedName mid new (renamedName old mid name) = renamedName old new name := by
  by_cases hold : name = old
  · rw [hold, renamedName_self, renamedName_self, renamedName_self]
  · rw [renamedName_of_ne hold, renamedName_of_ne hold, renamedName_of_ne h]

theorem renamedName_eq_new_iff {name : String} (h : name ≠ new) :
    renamedName old new name = new ↔ name = old := by
  by_cases hold : name = old
  · simp [hold, renamedName_self]
  · simp [renamedName_of_ne hold, h, hold]

theorem renamedName_same (name : String) : renamedName old old name = name := by
  by_cases hold : name = old
  · rw [hold, renamedName_self]
  · exact renamedName_of_ne hold

namespace Field

theorem name_renamed (f : Field) : (f.renamed old new).name = f.name := by
  unfold Field.renamed
  split <;> rfl

theorem isList_renamed (f : Field) : (f.renamed old new).type.isList = f.type.isList := by
  unfold Field.renamed
  split <;> rfl

theorem typeName_renamed (f : Field) :
    (f.renamed old new).type.name = renamedName old new f.type.name := by
  unfold Field.renamed renamedName
  split <;> rfl

theorem renamed_of_ne {f : Field} (h : f.type.name ≠ old) : f.renamed old new = f := if_neg h

theorem renamed_renamed {f : Field} (h : f.type.name ≠ mid) :
    (f.renamed old mid).renamed mid new = f.renamed old new := by
  by_cases hold : f.type.name = old
  · simp [Field.renamed, hold, FieldType.withName]
  · rw [renamed_of_ne hold, renamed_of_ne hold, renamed_of_ne h]

/-- The mark is made anew, so it has to be right before. -/
theorem renamed_same {f : Field} (h : f.type.Settled) : f.renamed old old = f := by
  have hmark : f.type.isCustom = !Builtin.isScalar f.type.name := h
  by_cases hold : f.type.name = old
  · have htype : f.type.withName old = f.type := by
      rw [FieldType.withName, ← hold, ← hmark]
    rw [Field.renamed, if_pos hold, htype]
  · exact renamed_of_ne hold

end Field

namespace TypeDef

theorem values_renamed (t : TypeDef) :
    (t.renamed old new).fields.values = t.fields.values.map (Field.renamed old new) := by
  simp only [TypeDef.renamed, renameReferences, Keyed.values, Keyed.mapValues, List.map_map]
  rfl

theorem field?_renamed (t : TypeDef) (name : String) :
    (t.renamed old new).field? name = (t.field? name).map (Field.renamed old new) :=
  Keyed.get?_mapValues _ name

def Avoids (name : String) (t : TypeDef) : Prop :=
  t.name ≠ name ∧ t.fields.All fun _ f => f.type.name ≠ name

theorem renamed_eq (t : TypeDef) : t.renamed old new =
    { t with
      fields := t.fields.mapValues (Field.renamed old new)
      name := renamedName old new t.name } := rfl

theorem renamed_renamed {t : TypeDef} (h : t.Avoids mid) :
    (t.renamed old mid).renamed mid new = t.renamed old new := by
  have hfields : (t.fields.mapValues (Field.renamed old mid)).mapValues (Field.renamed mid new) =
      t.fields.mapValues (Field.renamed old new) := by
    rw [Keyed.mapValues_mapValues]
    exact Keyed.mapValues_congr fun e he => Field.renamed_renamed (h.2 e he)
  simp only [renamed_eq, hfields, renamedName_renamedName h.1]

theorem renamed_same {t : TypeDef} (h : t.Settled) : t.renamed old old = t := by
  have hfields : t.fields.mapValues (Field.renamed old old) = t.fields :=
    Keyed.mapValues_eq_self fun e he => Field.renamed_same (h e he)
  rw [renamed_eq, hfields, renamedName_same]

theorem dropReferences_renamed {t : TypeDef} (h : t.Avoids new) (hold : t.name ≠ old) :
    (t.renamed old new).dropReferences new = t.dropReferences old := by
  have hdropped : t.fields.All fun _ f => decide ((f.renamed old new).type.name ≠ new) =
      decide (f.type.name ≠ old) := by
    intro e he
    rw [Field.typeName_renamed]
    exact decide_eq_decide.2 (renamedName_eq_new_iff (h.2 e he)).not
  have hkept : (t.fields.filterValues fun f => f.type.name ≠ old).All fun _ f =>
      f.renamed old new = f :=
    Keyed.all_filterValues.imp fun _ _ hf => Field.renamed_of_ne (of_decide_eq_true hf)
  have hfields : (t.fields.mapValues (Field.renamed old new)).filterValues
      (fun f => f.type.name ≠ new) = t.fields.filterValues fun f => f.type.name ≠ old := by
    rw [Keyed.filterValues_mapValues, Keyed.filterValues_congr hdropped,
      Keyed.mapValues_eq_self hkept]
  simp only [dropReferences, renamed_eq, hfields, renamedName_of_ne hold]

end TypeDef

end Names

/-! Graphs -/

namespace Graph

variable {g : Graph} {old mid new : String}

section Keys

variable (hkeys : g.types.All fun key t => key = t.name)
include hkeys

theorem renamed_eq : g.renamed old new = ⟨Keyed.ofList (g.types.entries.map fun e =>
    (renamedName old new e.1, e.2.renamed old new))⟩ := by
  have hentries : g.types.entries.map (renamedEntry old new) =
      g.types.entries.map fun e => (renamedName old new e.1, e.2.renamed old new) := by
    refine List.map_congr_left fun e he => ?_
    have hkey : e.1 = e.2.name := hkeys e he
    unfold renamedEntry TypeDef.renamed renamedName
    rw [← hkey]
    split <;> simp [TypeDef.renameReferences, *]
  rw [renamed, hentries]

theorem renamed_same (h : g.types.All fun _ t => t.Settled) : g.renamed old old = g := by
  have hentries : g.types.entries.map (fun e => (renamedName old old e.1, e.2.renamed old old)) =
      g.types.entries := by
    refine (List.map_congr_left fun e he => ?_).trans (List.map_id _)
    exact Prod.ext (renamedName_same e.1) (TypeDef.renamed_same (h e he))
  rw [renamed_eq hkeys, hentries, Keyed.ofList_entries]

variable (hfresh : g.hasType new = false)
include hfresh

omit hkeys in
theorem ne_of_mem_of_fresh {name : String} (hname : name ∈ g.types.keys) : name ≠ new := by
  rintro rfl
  exact Keyed.contains_eq_false_iff.1 hfresh hname

omit hkeys in
theorem renamedName_inj_of_fresh : ∀ a ∈ g.types.keys, ∀ b ∈ g.types.keys,
    renamedName old new a = renamedName old new b → a = b := fun _ ha _ hb =>
  renamedName_inj (ne_of_mem_of_fresh hfresh ha) (ne_of_mem_of_fresh hfresh hb)

theorem entries_renamed : (g.renamed old new).types.entries =
    g.types.entries.map fun e => (renamedName old new e.1, e.2.renamed old new) := by
  rw [renamed_eq hkeys]
  exact Keyed.entries_ofList_map _ (renamedName_inj_of_fresh hfresh)

theorem typeNames_renamed :
    (g.renamed old new).typeNames = g.typeNames.map (renamedName old new) := by
  rw [renamed_eq hkeys]
  exact Keyed.keys_ofList_map _ (renamedName_inj_of_fresh hfresh)

theorem type_keys_renamed : (g.renamed old new).types.All fun key t => key = t.name := by
  intro e he
  rw [entries_renamed hkeys hfresh] at he
  obtain ⟨a, ha, rfl⟩ := List.mem_map.1 he
  exact congrArg (renamedName old new) (hkeys a ha)

theorem hasType_renamed_iff {name : String} : (g.renamed old new).hasType name = true ↔
    ∃ key, g.hasType key = true ∧ renamedName old new key = name := by
  unfold hasType
  simp only [Keyed.contains_iff_mem_keys]
  rw [← typeNames, typeNames_renamed hkeys hfresh, List.mem_map]
  rfl

theorem hasType_renamed_of_ne {name : String} (hold : name ≠ old) (hnew : name ≠ new) :
    (g.renamed old new).hasType name = g.hasType name := by
  rw [Bool.eq_iff_iff, hasType_renamed_iff hkeys hfresh]
  constructor
  · rintro ⟨key, hkey, rfl⟩
    have hne : key ≠ old := fun heq => hnew (heq ▸ renamedName_self)
    rwa [renamedName_of_ne hne]
  · intro hname
    exact ⟨name, hname, renamedName_of_ne hold⟩

theorem hasType_renamed_old (hne : old ≠ new) : (g.renamed old new).hasType old = false := by
  rw [← Bool.not_eq_true, hasType_renamed_iff hkeys hfresh]
  rintro ⟨key, -, hkey⟩
  by_cases hold : key = old
  · rw [hold, renamedName_self] at hkey
    exact hne hkey.symm
  · exact hold (renamedName_of_ne hold ▸ hkey)

end Keys

end Graph

/-- What is needed for a new name to be nothing more than another name. -/
structure Graph.Renames (g : Graph) (old new : String) : Prop where
  rules : g.violations = []
  settled : g.types.All fun _ t => t.Settled
  old_unknown : Builtin.isFieldType old = false
  new_unknown : Builtin.isFieldType new = false
  fresh : g.hasType new = false

structure Graph.Understands (g : Graph) (f : Field) : Prop where
  settled : f.type.Settled
  resolves : g.resolves f.type.name = true

namespace Graph.Renames

variable {g : Graph} {old new : String} (h : g.Renames old new)
include h

theorem keys : g.types.All fun key t => key = t.name := type_keys_of_rules h.rules

theorem ne_new_of_mem {name : String} (hname : name ∈ g.types.keys) : name ≠ new :=
  ne_of_mem_of_fresh h.fresh hname

theorem ne_new_of_resolves {name : String} (hname : g.resolves name = true) : name ≠ new := by
  rintro rfl
  rw [resolves, h.new_unknown, h.fresh] at hname
  cases hname

theorem type?_renamed {name : String} (hname : name ≠ new) :
    (g.renamed old new).type? (renamedName old new name) =
      (g.type? name).map (TypeDef.renamed old new) := by
  rw [renamed_eq h.keys]
  exact Keyed.get?_ofList_map (renamedName_inj_of_fresh h.fresh)
    (fun a ha => renamedName_inj hname (h.ne_new_of_mem ha))

theorem hasType_new (hold : g.hasType old = true) : (g.renamed old new).hasType new = true :=
  (hasType_renamed_iff h.keys h.fresh).2 ⟨old, hold, renamedName_self⟩

theorem avoids : g.types.All fun _ t => t.Avoids new := by
  intro e he
  have hrule := (violations_eq_nil_iff g).1 h.rules e he
  refine ⟨?_, hrule.2.imp fun _ f hf => h.ne_new_of_resolves hf.2.1⟩
  exact hrule.1 ▸ h.ne_new_of_mem (List.mem_map_of_mem he)

theorem understands {typeName : String} {t : TypeDef} (ht : g.type? typeName = some t) :
    ∀ f ∈ t.fields.values, g.Understands f := by
  intro f hf
  have hrule := ((violations_eq_nil_iff g).1 h.rules).get? ht
  exact ⟨(h.settled.get? ht).of_mem_values f hf,
    (hrule.2.imp fun _ _ hf => hf.2.1).of_mem_values f hf⟩

section Field

variable {f : Field} (hf : g.Understands f)
include hf

theorem typeName_ne_new : f.type.name ≠ new := h.ne_new_of_resolves hf.resolves

theorem known_renamed :
    (f.renamed old new).type.isCustom = f.type.isCustom ∧
      Builtin.isResourceReference (f.renamed old new).type.name =
        Builtin.isResourceReference f.type.name := by
  have hmark : f.type.isCustom = !Builtin.isScalar f.type.name := hf.settled
  have hold := Bool.or_eq_false_iff.1 h.old_unknown
  have hnew := Bool.or_eq_false_iff.1 h.new_unknown
  unfold Field.renamed
  split
  · rename_i heq
    rw [hmark, heq, hold.1, hold.2]
    show (!Builtin.isScalar new) = _ ∧ Builtin.isResourceReference new = _
    rw [hnew.1, hnew.2]
    exact ⟨rfl, rfl⟩
  · exact ⟨rfl, rfl⟩

theorem isRelation_renamed : (f.renamed old new).isRelation = f.isRelation := by
  obtain ⟨hcustom, hresource⟩ := h.known_renamed hf
  rw [Field.isRelation, Field.isRelation, hcustom, hresource]

end Field

theorem renamed_renamed (other : String) :
    (g.renamed old new).renamed new other = g.renamed old other := by
  rw [renamed_eq (type_keys_renamed h.keys h.fresh), entries_renamed h.keys h.fresh,
    List.map_map, renamed_eq h.keys]
  congr 2
  refine List.map_congr_left fun e he => Prod.ext ?_ (TypeDef.renamed_renamed (h.avoids e he))
  exact renamedName_renamedName (h.ne_new_of_mem (List.mem_map_of_mem he))

theorem withoutType_renamed : (g.renamed old new).withoutType new = g.withoutType old := by
  have hgone : ∀ e ∈ g.types.entries, decide (renamedName old new e.1 ≠ new) =
      decide (e.1 ≠ old) := fun e he =>
    decide_eq_decide.2 (renamedName_eq_new_iff (h.ne_new_of_mem (List.mem_map_of_mem he))).not
  have hrest : ∀ e ∈ g.types.entries.filter (fun e => e.1 ≠ old),
      (renamedName old new e.1, (e.2.renamed old new).dropReferences new) =
        (e.1, e.2.dropReferences old) := by
    intro e he
    obtain ⟨hmem, hne⟩ := List.mem_filter.1 he
    have hold : e.1 ≠ old := of_decide_eq_true hne
    have hname : e.2.name ≠ old := h.keys e hmem ▸ hold
    rw [renamedName_of_ne hold, TypeDef.dropReferences_renamed (h.avoids e hmem) hname]
  have hentries : (((g.types.entries.map fun e =>
      (renamedName old new e.1, e.2.renamed old new)).map
        fun e => (e.1, e.2.dropReferences new)).filter fun e => e.1 ≠ new) =
        (g.types.entries.map fun e => (e.1, e.2.dropReferences old)).filter fun e => e.1 ≠ old := by
    rw [List.map_map, List.filter_map, List.filter_map]
    exact (congrArg _ (List.filter_congr hgone)).trans (List.map_congr_left hrest)
  unfold withoutType
  congr 1
  apply Keyed.ext
  show ((g.renamed old new).types.entries.map _).filter _ = _
  rw [entries_renamed h.keys h.fresh]
  exact hentries

end Graph.Renames

namespace Graph

variable {g g₁ : Graph}

theorem type?_withoutType (name typeName : String) : (g.withoutType name).type? typeName =
    if typeName = name then none else (g.type? typeName).map fun t => t.dropReferences name := by
  unfold type? withoutType
  rw [Keyed.get?_erase, Keyed.get?_mapValues]

theorem rules_withoutType (h : g.violations = []) (name : String) :
    (g.withoutType name).violations = [] := by
  rw [violations_eq_nil_iff] at h ⊢
  refine Keyed.all_iff_get?.2 fun key u hu => ?_
  have hu : (g.withoutType name).type? key = some u := hu
  rw [type?_withoutType] at hu
  split at hu
  · cases hu
  · obtain ⟨t, ht, rfl⟩ := Option.map_eq_some_iff.1 hu
    obtain ⟨hkey, hfields⟩ := h.get? ht
    refine ⟨hkey, Keyed.all_iff_get?.2 fun fieldKey f hf => ?_⟩
    obtain ⟨hf, hkept⟩ := Option.filter_eq_some_iff.1 (Keyed.get?_filterValues .. ▸ hf)
    have hother : f.type.name ≠ name := of_decide_eq_true hkept
    obtain ⟨hfieldKey, hresolves, hinline⟩ := hfields.get? hf
    refine ⟨hfieldKey, ?_, hinline⟩
    rw [resolves, Bool.or_eq_true] at hresolves ⊢
    -- No field that is left refers to the type that is gone.
    refine hresolves.imp_right fun hhas => ?_
    obtain ⟨target, htarget⟩ := (type?_isSome_iff g _).2 hhas
    refine (type?_isSome_iff ..).1 ⟨target.dropReferences name, ?_⟩
    rw [type?_withoutType, if_neg hother, htarget]
    rfl

theorem renameType_eq {old : String} (h : g.hasType old = true) (new : String) :
    g.renameType old new = if old = new then .ok g else
      g.checkNewTypeName new >>= fun _ => (g.renamed old new).validated := by
  obtain ⟨t, ht⟩ := (type?_isSome_iff g old).2 h
  unfold renameType require
  rw [ht]
  rfl

theorem removeType_eq {name : String} (h : g.hasType name = true) :
    g.removeType name = (g.withoutType name).validated := by
  obtain ⟨t, ht⟩ := (type?_isSome_iff g name).2 h
  unfold removeType require
  rw [ht]
  rfl

/-- A type that is called `new` instead of `old` is the same type: it gets further names, its old
one among them, and goes away as if it were still called `old`. -/
structure RenamesAlike (g g₁ : Graph) (old new : String) : Prop where
  rename : ∀ other, g₁.renameType new other = g.renameType old other
  restore : g₁.renameType new old = .ok g
  remove : ∃ rest, g.removeType old = .ok rest ∧ g₁.removeType new = .ok rest

theorem Renames.rename_back {old new : String} (h : g.Renames old new) (hne : new ≠ old)
    (hold : g.hasType old = true) (hvalid : isValidName old = true)
    (hfree : isReservedName old = false) :
    (g.renamed old new).renameType new old = .ok g := by
  have hcheck : (g.renamed old new).checkNewTypeName old = .ok () :=
    (checkNewTypeName_eq_ok_iff ..).2
      ⟨hvalid, hfree, hasType_renamed_old h.keys h.fresh hne.symm⟩
  rw [renameType_eq (h.hasType_new hold), if_neg hne, hcheck, h.renamed_renamed,
    renamed_same h.keys h.settled]
  exact (validated_eq_ok_iff g g).2 ⟨h.rules, rfl⟩

theorem Renames.rename_again {old new : String} (h : g.Renames old new)
    (hold : g.hasType old = true) {other : String} (hother : other ≠ old) (hne : other ≠ new) :
    (g.renamed old new).renameType new other = g.renameType old other := by
  have hcheck : (g.renamed old new).checkNewTypeName other = g.checkNewTypeName other := by
    unfold checkNewTypeName
    rw [hasType_renamed_of_ne h.keys h.fresh hother hne]
  rw [renameType_eq (h.hasType_new hold), renameType_eq hold, if_neg hne.symm,
    if_neg hother.symm, hcheck, h.renamed_renamed]

theorem Renames.remove_renamed {old new : String} (h : g.Renames old new)
    (hold : g.hasType old = true) :
    ∃ rest, g.removeType old = .ok rest ∧ (g.renamed old new).removeType new = .ok rest := by
  have hrest : (g.withoutType old).validated = .ok (g.withoutType old) :=
    (validated_eq_ok_iff ..).2 ⟨rules_withoutType h.rules old, rfl⟩
  refine ⟨g.withoutType old, ?_, ?_⟩
  · rw [removeType_eq hold, hrest]
  · rw [removeType_eq (h.hasType_new hold), h.withoutType_renamed, hrest]

/-- Edits give no name that a field could refer to without a type, so a new name is free to come and
go. -/
theorem Kept.renames (h : g.Kept) {old new : String} (hold : g.hasType old = true)
    (hcheck : g.checkNewTypeName new = .ok ()) :
    g.Renames old new ∧ isValidName old = true ∧ isReservedName old = false := by
  obtain ⟨t, ht⟩ := (type?_isSome_iff g old).2 hold
  obtain ⟨hvalid, hunreserved⟩ := (h.made.get? ht).1
  obtain ⟨-, hfree, hfresh⟩ := (checkNewTypeName_eq_ok_iff ..).1 hcheck
  refine ⟨?_, hvalid, hunreserved⟩
  exact
    { rules := h.rules
      settled := h.made.imp fun _ _ ht => ht.2.imp fun _ _ hf => hf.2
      old_unknown := (Bool.or_eq_false_iff.1 hunreserved).2
      new_unknown := (Bool.or_eq_false_iff.1 hfree).2
      fresh := hfresh }

theorem renamesAlike_of_renameType {es : List Edit} (hes : ∀ e ∈ es, e.Built)
    (hrun : (∅ : Graph).applyAll es = .ok g) {old new : String} (hne : new ≠ old)
    (hrename : g.renameType old new = .ok g₁) : g.RenamesAlike g₁ old new := by
  have hkept : g.Kept := kept_empty.applyAll hes hrun
  obtain ⟨hold, ⟨hsame, -⟩ | ⟨-, hcheck, -, rfl⟩⟩ := renameType_eq_ok_iff.1 hrename
  · exact absurd hsame.symm hne
  · obtain ⟨hrenames, hvalid, hunreserved⟩ := hkept.renames hold hcheck
    have hrestore := hrenames.rename_back hne hold hvalid hunreserved
    refine ⟨fun other => ?_, hrestore, hrenames.remove_renamed hold⟩
    by_cases hback : other = old
    · rw [hback, hrestore, renameType_eq hold, if_pos rfl]
    · by_cases hstay : other = new
      · rw [hstay, hrename, renameType_eq (hrenames.hasType_new hold), if_pos rfl]
      · exact hrenames.rename_again hold hback hstay

/-- The type refers to itself, and it and another type refer to each other. -/
theorem renamesAlike_of_renamed_post :
    let post := (TypeDef.make "Post" .object).withField (.make "related" (.make "Post" true false))
    let author : FieldProps := ⟨[], none, [], false, true, "Person"⟩
    let posts : FieldProps := ⟨[], none, [], true, false, "Post"⟩
    let es : List Edit := [.setType "Post" post, .addType "Person" .object none,
      .addField "Post" "author" author, .addField "Person" "posts" posts]
    ∃ g g₁ : Graph, (∀ e ∈ es, e.Built) ∧ (∅ : Graph).applyAll es = .ok g ∧ "Article" ≠ "Post" ∧
      g.renameType "Post" "Article" = .ok g₁ ∧ g₁.typeNames = ["Article", "Person"] ∧
        g.RenamesAlike g₁ "Post" "Article" := by
  intro post author posts es
  have hes : ∀ e ∈ es, e.Built := by
    simp only [es, List.forall_mem_cons, List.not_mem_nil, Edit.Built, false_implies,
      implies_true, and_true]
    exact .withField (.make "Post" .object) "related" "Post" true false
  have hedits : ((∅ : Graph).applyAll es).toOption.map typeNames = some ["Post", "Person"] := by
    decide +kernel
  obtain ⟨g, hrun, -⟩ := exists_eq_ok_of_map hedits
  have hnames : (((∅ : Graph).applyAll es).toOption.bind fun g =>
      (g.renameType "Post" "Article").toOption).map typeNames = some ["Article", "Person"] := by
    decide +kernel
  rw [hrun, Except.toOption, Option.bind_some] at hnames
  obtain ⟨g₁, hrename, hafter⟩ := exists_eq_ok_of_map hnames
  have hne : "Article" ≠ "Post" := by decide
  exact ⟨g, g₁, hes, hrun, hne, hrename, hafter, renamesAlike_of_renameType hes hrun hne hrename⟩

end Graph

end SchemaGraph
