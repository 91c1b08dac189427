import SchemaGraph.Graph.Printer
import SchemaGraph.Graph.Record
import SchemaGraph.Graph.Validation
import SchemaGraph.Proofs.Json.Rereading

/-! Graphs as JSON: the record of a graph is read as that graph, whether or not it keeps the
rules. -/

namespace SchemaGraph

open Json (Plain)

namespace Json

theorem string?_string (s : String) : string? (.string s) = some s := rfl

section Parts

variable {α : Type} {encode : α → Json} {decode : Decoder α}

theorem list?_array (h : ∀ a, decode (encode a) = some a) (as : List α) :
    list? decode (.array (as.map encode)) = some as := by
  show (as.map encode).mapM decode = some as
  induction as with
  | nil => rfl
  | cons a as ih => simp [List.mapM_cons, h, ih]

theorem keyed?_object (h : ∀ a, decode (encode a) = some a) (m : Keyed α) :
    keyed? decode (.object (m.mapValues encode).entries) = some m := by
  have hentries : ∀ es : List (String × α), (es.map fun e => (e.1, encode e.2)).mapM
      (fun m => (decode m.2).map fun a => (m.1, a)) = some es := by
    intro es
    induction es with
    | nil => rfl
    | cons e es ih => simp [List.mapM_cons, h, ih]
  rw [keyed?, Keyed.mapValues, hentries, Option.map_some, Keyed.ofList_entries]

theorem nullable?_ofOption (s : Option String) :
    nullable? string? (ofOption .string s) = some s := by
  cases s <;> rfl

end Parts

/-! How deep they are -/

section Plain

variable {α : Type} {encode : α → Json} {n : Nat}

theorem plain_ofOption (s : Option String) : Plain n (ofOption .string s) := by
  cases s with
  | none => exact .null
  | some s => exact .string s

theorem plain_array (h : ∀ a, Plain n (encode a)) (as : List α) :
    Plain (n + 1) (.array (as.map encode)) :=
  .array (List.forall_mem_map.2 fun a _ => h a)

theorem plain_keyed (h : ∀ a, Plain n (encode a)) (m : Keyed α) :
    Plain (n + 1) (.object (m.mapValues encode).entries) :=
  .object (List.forall_mem_map.2 fun e _ => h e.2)

end Plain

end Json

theorem FieldType.ofJson?_toJson (t : FieldType) : ofJson? t.toJson = some t := rfl

theorem Annotation.ofJson?_toJson (d : Annotation) : ofJson? d.toJson = some d := by
  show ((Json.keyed? Json.string? (.object (d.arguments.mapValues Json.string).entries)).bind
    fun arguments => some ⟨arguments, d.name⟩) = some d
  rw [Json.keyed?_object Json.string?_string]
  rfl

theorem FieldArgument.ofJson?_toJson (a : FieldArgument) : ofJson? a.toJson = some a := by
  show ((Json.nullable? Json.string? (Json.ofOption .string a.default)).bind
    fun default => some ⟨default, a.name, a.type⟩) = some a
  rw [Json.nullable?_ofOption]
  rfl

theorem Field.ofJson?_toJson (f : Field) : ofJson? f.toJson = some f := by
  show ((Json.list? FieldArgument.ofJson? (.array (f.arguments.map FieldArgument.toJson))).bind
    fun arguments =>
      (Json.nullable? Json.string? (Json.ofOption .string f.description)).bind fun description =>
        (Json.list? Annotation.ofJson? (.array (f.directives.map Annotation.toJson))).bind
          fun directives => (FieldType.ofJson? f.type.toJson).bind fun type =>
            some ⟨arguments, description, directives, type, f.name⟩) = some f
  rw [Json.list?_array FieldArgument.ofJson?_toJson, Json.nullable?_ofOption,
    Json.list?_array Annotation.ofJson?_toJson, FieldType.ofJson?_toJson]
  rfl

theorem TypeKind.ofJson?_toJson (k : TypeKind) : ofJson? k.toJson = some k := by
  cases k <;> rfl

theorem TypeDef.ofJson?_toJson (t : TypeDef) : ofJson? t.toJson = some t := by
  show ((Json.nullable? Json.string? (Json.ofOption .string t.description)).bind
    fun description =>
      (Json.list? Annotation.ofJson? (.array (t.directives.map Annotation.toJson))).bind
        fun directives =>
          (Json.keyed? Field.ofJson? (.object (t.fields.mapValues Field.toJson).entries)).bind
            fun fields => (TypeKind.ofJson? t.kind.toJson).bind fun kind =>
              (Json.nullable? Json.string? (Json.ofOption .string t.version)).bind fun version =>
                some ⟨description, directives, fields, kind, t.name, version⟩) = some t
  rw [Json.nullable?_ofOption, Json.list?_array Annotation.ofJson?_toJson,
    Json.keyed?_object Field.ofJson?_toJson, TypeKind.ofJson?_toJson, Json.nullable?_ofOption]
  rfl

theorem Graph.ofJson?_toJson (g : Graph) : ofJson? g.toJson = some g := by
  show ((Json.keyed? TypeDef.ofJson? (.object (g.types.mapValues TypeDef.toJson).entries)).bind
    fun types => some ⟨types⟩) = some g
  rw [Json.keyed?_object TypeDef.ofJson?_toJson]
  rfl

section Depth

variable (n : Nat)

theorem FieldType.plain_toJson (t : FieldType) : Plain (n + 1) t.toJson := by
  refine .object ?_
  simp only [List.forall_mem_cons]
  exact ⟨.bool _, .bool _, .bool _, .string _, List.forall_mem_nil _⟩

theorem Annotation.plain_toJson (d : Annotation) : Plain (n + 2) d.toJson := by
  refine .object ?_
  simp only [List.forall_mem_cons]
  exact ⟨Json.plain_keyed .string d.arguments, .string _, List.forall_mem_nil _⟩

theorem FieldArgument.plain_toJson (a : FieldArgument) : Plain (n + 1) a.toJson := by
  refine .object ?_
  simp only [List.forall_mem_cons]
  exact ⟨Json.plain_ofOption a.default, .string _, .string _, List.forall_mem_nil _⟩

theorem Field.plain_toJson (f : Field) : Plain (n + 4) f.toJson := by
  refine .object ?_
  simp only [List.forall_mem_cons]
  exact ⟨Json.plain_array (FieldArgument.plain_toJson _) f.arguments,
    Json.plain_ofOption f.description,
    Json.plain_array (fun d => d.plain_toJson n) f.directives,
    f.type.plain_toJson _, .string _, List.forall_mem_nil _⟩

theorem TypeKind.plain_toJson (k : TypeKind) : Plain n k.toJson := by
  cases k <;> exact .string _

theorem TypeDef.plain_toJson (t : TypeDef) : Plain (n + 6) t.toJson := by
  refine .object ?_
  simp only [List.forall_mem_cons]
  exact ⟨Json.plain_ofOption t.description,
    Json.plain_array (fun d => d.plain_toJson _) t.directives,
    Json.plain_keyed (Field.plain_toJson n) t.fields,
    t.kind.plain_toJson _, .string _, Json.plain_ofOption t.version, List.forall_mem_nil _⟩

theorem Graph.plain_toJson (g : Graph) : Plain (n + 8) g.toJson := by
  refine .object ?_
  simp only [List.forall_mem_cons]
  exact ⟨Json.plain_keyed (TypeDef.plain_toJson n) g.types, List.forall_mem_nil _⟩

end Depth

namespace Graph

theorem ofJsonText?_toJsonText (g : Graph) : ofJsonText? g.toJsonText = some g := by
  rw [ofJsonText?, toJsonText, (g.plain_toJson 0).parseLenient?_compact (by decide),
    Option.bind_some, ofJson?_toJson]

/-- Nothing is lost on the way, whatever the graph: types, fields, directives and arguments come
back as they were and where they were, and so do the rules it breaks and its text. -/
theorem kept_by_json (g : Graph) : ∃ g', ofJsonText? g.toJsonText = some g' ∧
    g'.types.entries = g.types.entries ∧ g'.violations = g.violations ∧ g'.render = g.render :=
  ⟨g, ofJsonText?_toJsonText g, rfl, rfl, rfl⟩

end Graph

end SchemaGraph
