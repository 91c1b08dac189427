import SchemaGraph.Proofs.Graph.Equality

/-! Edits of graphs that are the same. Each edit asks what is found under a name, changes what is
found there and checks rules that speak of each declaration by itself; so it succeeds on both graphs
or on neither, and the graphs that it leads to are the same again. -/

namespace SchemaGraph

def LeadsAlike (x y : Except SchemaError Graph) : Prop :=
  ∀ g, x = .ok g → ∃ h, y = .ok h ∧ g.Alike h

theorem TypeDef.Alike.placeField {t u : TypeDef} (h : t.Alike u) {typeName fieldName : String}
    {newName : Option String} {f f' : Field} (hf : f.Alike f') {fields : Keyed Field}
    (hplace : t.placeField typeName fieldName newName f = .ok fields) :
    ∃ fields', u.placeField typeName fieldName newName f' = .ok fields' ∧
      Keyed.Alike Field.Alike fields fields' := by
  rcases (t.placeField_eq_ok_iff ..).1 hplace with
    ⟨hstays, rfl⟩ | ⟨new, hname, hne, hvalid, hfree, rfl⟩
  · exact ⟨_, (u.placeField_eq_ok_iff ..).2 (.inl ⟨hstays, rfl⟩), h.fields.insert fieldName hf⟩
  · have hfree' : u.fields.contains new = false := h.fields.contains_eq new ▸ hfree
    exact ⟨_, (u.placeField_eq_ok_iff ..).2 (.inr ⟨new, hname, hne, hvalid, hfree', rfl⟩),
      h.fields.replace hfree (hf.withName new)⟩

namespace Graph.Alike

variable {g h : Graph} (hs : g.Alike h)
include hs

theorem hasType_eq (name : String) : g.hasType name = h.hasType name :=
  Keyed.Alike.contains_eq hs name

theorem resolves_eq (name : String) : g.resolves name = h.resolves name := by
  rw [resolves, resolves, hs.hasType_eq]

theorem checkNewTypeName_eq (name : String) :
    g.checkNewTypeName name = h.checkNewTypeName name := by
  rw [checkNewTypeName, checkNewTypeName, hs.hasType_eq]

theorem keys (hkeys : g.types.All fun key t => key = t.name) :
    h.types.All fun key t => key = t.name :=
  Keyed.Alike.all hs hkeys fun _ _ _ ht hkey => hkey.trans ht.name

theorem rules (hrules : g.violations = []) : h.violations = [] := by
  rw [violations_eq_nil_iff] at hrules ⊢
  refine Keyed.Alike.all hs hrules fun key t u ht htypes => ⟨htypes.1.trans ht.name, ?_⟩
  refine ht.fields.all htypes.2 fun fieldKey f f' hf hfield => ?_
  rw [← hs.resolves_eq, ← ht.isInline_eq, ← hf.isRelation_eq, ← hf.type, ← hf.name]
  exact hfield

/-! Graphs that edits lead to -/

theorem putType (name : String) (t : TypeDef) : (g.putType name t).Alike (h.putType name t) :=
  Keyed.Alike.insert hs name (t.alike_refl.withName name)

theorem renamed (hkeys : g.types.All fun key t => key = t.name) {old new : String}
    (hfresh : g.hasType new = false) : (g.renamed old new).Alike (h.renamed old new) := by
  rw [renamed_eq hkeys, renamed_eq (hs.keys hkeys)]
  exact Keyed.Alike.rekeyed hs (renamedName_inj_of_fresh hfresh) fun _ _ ht => ht.renamed old new

theorem withoutType (name : String) : (g.withoutType name).Alike (h.withoutType name) :=
  (Keyed.Alike.mapValues hs fun _ _ ht => ht.dropReferences name).erase name

theorem withUpdatedType (typeName : String) (u : TypeUpdates) :
    (g.withUpdatedType typeName u).Alike (h.withUpdatedType typeName u) :=
  Keyed.Alike.modify hs typeName fun _ _ ht => ht.updated u

theorem setFields (typeName : String) {fields fields' : Keyed Field}
    (hfields : Keyed.Alike Field.Alike fields fields') :
    (g.setFields typeName fields).Alike (h.setFields typeName fields') :=
  Keyed.Alike.modify hs typeName fun _ _ ht => ht.withFields hfields

/-! Edits -/

theorem addType (name : String) (kind : TypeKind) (directive : Option String) :
    LeadsAlike (g.addType name kind directive) (h.addType name kind directive) := by
  intro g' hrun
  obtain ⟨hcheck, rfl⟩ := addType_eq_ok_iff.1 hrun
  exact ⟨_, addType_eq_ok_iff.2 ⟨hs.checkNewTypeName_eq name ▸ hcheck, rfl⟩, hs.putType name _⟩

theorem renameType (hkeys : g.types.All fun key t => key = t.name) (old new : String) :
    LeadsAlike (g.renameType old new) (h.renameType old new) := by
  intro g' hrun
  obtain ⟨hold, ⟨hsame, rfl⟩ | ⟨hne, hcheck, hrules, rfl⟩⟩ := renameType_eq_ok_iff.1 hrun
  · exact ⟨h, renameType_eq_ok_iff.2 ⟨hs.hasType_eq old ▸ hold, .inl ⟨hsame, rfl⟩⟩, hs⟩
  · obtain ⟨-, -, hfresh⟩ := (checkNewTypeName_eq_ok_iff ..).1 hcheck
    have hafter : (g.renamed old new).Alike (h.renamed old new) := hs.renamed hkeys hfresh
    refine ⟨_, renameType_eq_ok_iff.2 ⟨hs.hasType_eq old ▸ hold, .inr ⟨hne, ?_, ?_, rfl⟩⟩, hafter⟩
    · exact hs.checkNewTypeName_eq new ▸ hcheck
    · exact hafter.rules hrules

theorem removeType (name : String) : LeadsAlike (g.removeType name) (h.removeType name) := by
  intro g' hrun
  obtain ⟨hhas, hrules, rfl⟩ := removeType_eq_ok_iff.1 hrun
  have hafter := hs.withoutType name
  exact ⟨_, removeType_eq_ok_iff.2 ⟨hs.hasType_eq name ▸ hhas, hafter.rules hrules, rfl⟩, hafter⟩

theorem updateType (hkeys : g.types.All fun key t => key = t.name) (typeName : String)
    (u : TypeUpdates) : LeadsAlike (g.updateType typeName u) (h.updateType typeName u) := by
  intro g' hrun
  have hafter := hs.withUpdatedType typeName u
  obtain ⟨hhas, ⟨hstays, hrules, rfl⟩ | ⟨new, hname, hne, hrename⟩⟩ :=
    updateType_eq_ok_iff.1 hrun
  · exact ⟨_, updateType_eq_ok_iff.2
      ⟨hs.hasType_eq typeName ▸ hhas, .inl ⟨hstays, hafter.rules hrules, rfl⟩⟩, hafter⟩
  · -- The name of the type is updated last, when its key is still the old name.
    have hkeys' : (g.withUpdatedType typeName u).types.All fun key t => key = t.name :=
      hkeys.modify fun _ ht => ht
    obtain ⟨h', hrename', hs'⟩ := hafter.renameType hkeys' typeName new g' hrename
    exact ⟨h', updateType_eq_ok_iff.2
      ⟨hs.hasType_eq typeName ▸ hhas, .inr ⟨new, hname, hne, hrename'⟩⟩, hs'⟩

theorem setType (name : String) (t : TypeDef) :
    LeadsAlike (g.setType name t) (h.setType name t) := by
  intro g' hrun
  obtain ⟨hname, hfields, hrules, rfl⟩ := setType_eq_ok_iff.1 hrun
  have hafter := hs.putType name t
  refine ⟨_, setType_eq_ok_iff.2 ⟨?_, hfields, hafter.rules hrules, rfl⟩, hafter⟩
  rw [← hs.hasType_eq, ← hs.checkNewTypeName_eq]
  exact hname

theorem updateField (typeName fieldName : String) (u : FieldUpdates) :
    LeadsAlike (g.updateField typeName fieldName u) (h.updateField typeName fieldName u) := by
  intro g' hrun
  obtain ⟨t, f, fields, ht, hf, hresolves, hplace, hrules, rfl⟩ := updateField_eq_ok_iff.1 hrun
  obtain ⟨t', ht', htypes⟩ := Keyed.Alike.exists_right hs ht
  obtain ⟨f', hf', hfield⟩ := htypes.fields.exists_right hf
  obtain ⟨fields', hplace', hfields⟩ := htypes.placeField (hfield.updated u) hplace
  have hafter := hs.setFields typeName hfields
  have hresolves' : ∀ r, u.typeName = some r → h.resolves r = true := fun r hr =>
    hs.resolves_eq r ▸ hresolves r hr
  exact ⟨_, updateField_eq_ok_iff.2
    ⟨t', f', fields', ht', hf', hresolves', hplace', hafter.rules hrules, rfl⟩, hafter⟩

theorem addField (typeName fieldName : String) (p : FieldProps) :
    LeadsAlike (g.addField typeName fieldName p) (h.addField typeName fieldName p) := by
  intro g' hrun
  obtain ⟨t, ht, ⟨hthere, hupdate⟩ | ⟨hnew, hvalid, hresolves, hrules, rfl⟩⟩ :=
    addField_eq_ok_iff.1 hrun
  · obtain ⟨t', ht', htypes⟩ := Keyed.Alike.exists_right hs ht
    obtain ⟨h', hupdate', hs'⟩ := hs.updateField typeName fieldName p.toUpdates g' hupdate
    have hthere' : t'.fields.contains fieldName = true := htypes.fields.contains_eq _ ▸ hthere
    exact ⟨h', addField_eq_ok_iff.2 ⟨t', ht', .inl ⟨hthere', hupdate'⟩⟩, hs'⟩
  · obtain ⟨t', ht', htypes⟩ := Keyed.Alike.exists_right hs ht
    have hnew' : t'.fields.contains fieldName = false := htypes.fields.contains_eq _ ▸ hnew
    have hafter := hs.setFields typeName
      (htypes.fields.insert fieldName (p.toField fieldName).alike_refl)
    exact ⟨_, addField_eq_ok_iff.2 ⟨t', ht', .inr ⟨hnew', hvalid,
      hs.resolves_eq p.typeName ▸ hresolves, hafter.rules hrules, rfl⟩⟩, hafter⟩

theorem removeField (typeName fieldName : String) :
    LeadsAlike (g.removeField typeName fieldName) (h.removeField typeName fieldName) := by
  intro g' hrun
  obtain ⟨t, ht, hthere, hrules, rfl⟩ := removeField_eq_ok_iff.1 hrun
  obtain ⟨t', ht', htypes⟩ := Keyed.Alike.exists_right hs ht
  have hthere' : t'.fields.contains fieldName = true := htypes.fields.contains_eq _ ▸ hthere
  have hafter := hs.setFields typeName (htypes.fields.erase fieldName)
  exact ⟨_, removeField_eq_ok_iff.2 ⟨t', ht', hthere', hafter.rules hrules, rfl⟩, hafter⟩

theorem apply (hkeys : g.types.All fun key t => key = t.name) (e : Edit) :
    LeadsAlike (g.apply e) (h.apply e) := by
  cases e with
  | addType name kind directive => exact hs.addType name kind directive
  | renameType old new => exact hs.renameType hkeys old new
  | removeType name => exact hs.removeType name
  | updateType typeName updates => exact hs.updateType hkeys typeName updates
  | setType name definition => exact hs.setType name definition
  | addField typeName fieldName props => exact hs.addField typeName fieldName props
  | updateField typeName fieldName updates => exact hs.updateField typeName fieldName updates
  | removeField typeName fieldName => exact hs.removeField typeName fieldName

end Graph.Alike

namespace Graph

variable {g h : Graph}

theorem same_of_apply (hg : g.violations = []) (hh : h.violations = []) (hsame : g.same h = true)
    (e : Edit) : ((∃ g', g.apply e = .ok g') ↔ ∃ h', h.apply e = .ok h') ∧
      ∀ g' h', g.apply e = .ok g' → h.apply e = .ok h' → g'.same h' = true := by
  have hs : g.Alike h := same_iff.1 hsame
  have hthere : LeadsAlike (g.apply e) (h.apply e) := hs.apply (type_keys_of_rules hg) e
  have hback : LeadsAlike (h.apply e) (g.apply e) := hs.symm.apply (type_keys_of_rules hh) e
  refine ⟨⟨?_, ?_⟩, ?_⟩
  · rintro ⟨g', hrun⟩
    obtain ⟨h', hrun', -⟩ := hthere g' hrun
    exact ⟨h', hrun'⟩
  · rintro ⟨h', hrun'⟩
    obtain ⟨g', hrun, -⟩ := hback h' hrun'
    exact ⟨g', hrun⟩
  · intro g' h' hrun hrun'
    obtain ⟨h'', hrun'', hs'⟩ := hthere g' hrun
    obtain rfl : h' = h'' := Except.ok.inj (hrun'.symm.trans hrun'')
    exact same_iff.2 hs'

/-- Types, fields and the arguments of a directive are declared in different orders; the edit
replaces the directive and gives the type another name. -/
theorem same_of_republished_post :
    let author : Field := .make "author" (.make "Person" false true)
    let title : Field := .make "title" (.make "String" false false)
    let view (es : List (String × String)) : Annotation := ⟨Keyed.ofList es, "view"⟩
    let space := ("space", "\"blog\"")
    let version := ("version", "\"1\"")
    let post := ((TypeDef.make "Post" .object).withField author).withField title
    let post' := ((TypeDef.make "Post" .object).withField title).withField author
    let person := TypeDef.make "Person" .interface
    let g : Graph := ⟨Keyed.ofList
      [("Post", post.withDirective (view [space, version])), ("Person", person)]⟩
    let h : Graph := ⟨Keyed.ofList
      [("Person", person), ("Post", post'.withDirective (view [version, space]))]⟩
    let e : Edit := .updateType "Post"
      ⟨some "What is read", some [.named "@container" ∅, view [version]], some "Article"⟩
    g.violations = [] ∧ h.violations = [] ∧ g.same h = true ∧ g ≠ h ∧
      ∃ g' h', g.apply e = .ok g' ∧ h.apply e = .ok h' ∧ g'.typeNames = ["Article", "Person"] ∧
        h'.typeNames = ["Person", "Article"] ∧ g'.same h' = true := by
  intro author title view space version post post' person g h e
  have hg : g.violations = [] := by decide +kernel
  have hh : h.violations = [] := by decide +kernel
  have hsame : g.same h = true := by decide +kernel
  have hne : g ≠ h := by decide +kernel
  obtain ⟨g', hrun, hnames⟩ := exists_eq_ok_of_map
    (show (g.apply e).toOption.map typeNames = some ["Article", "Person"] by decide +kernel)
  obtain ⟨h', hrun', hnames'⟩ := exists_eq_ok_of_map
    (show (h.apply e).toOption.map typeNames = some ["Person", "Article"] by decide +kernel)
  exact ⟨hg, hh, hsame, hne, g', h', hrun, hrun', hnames, hnames',
    (same_of_apply hg hh hsame e).2 g' h' hrun hrun'⟩

end Graph

end SchemaGraph
