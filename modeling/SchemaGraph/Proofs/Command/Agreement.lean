import SchemaGraph.Proofs.Command.Coverage
import SchemaGraph.Proofs.Graph.NormalForm

/-! Validating a single file and listing its types. Both come to the same verdict on every text but
the empty one, which is no schema to the one and a schema without types to the other. -/

namespace SchemaGraph

/-! What is wrong with a text, and the first thing that is -/

section Errors

variable {s : String}

theorem parse_of_schemaErrors_nil (h : schemaErrors s = []) : ∃ g, Graph.parse [] s = .ok g := by
  unfold schemaErrors at h
  split at h
  · cases h
  · split at h
    · rename_i g hload
      exact ⟨g, Graph.parse_eq_ok_iff.2 ⟨hload, h⟩⟩
    · cases h

theorem parse_of_schemaErrors_cons {e : SchemaError} {es : List SchemaError} (hs : s ≠ "")
    (h : schemaErrors s = e :: es) : Graph.parse [] s = .error e := by
  unfold schemaErrors at h
  rw [if_neg (by simpa using hs)] at h
  unfold Graph.parse
  split at h
  · simp only [Graph.validated, h]
  · cases h
    rfl

end Errors

theorem Graph.isName_of_parse {views : List ViewVersion} {s : String} {g : Graph}
    (h : parse views s = .ok g) : ∀ name ∈ g.typeNames, Sdl.isName name.toList = true := by
  obtain ⟨ps, hentries, hload, hfits, -⟩ := exists_declared_of_load (parse_eq_ok_iff.1 h).1
  have hnames : g.typeNames = ps.map fun p => p.1.1 := by
    rw [typeNames, Keyed.keys, ← hentries, List.map_map]
    rfl
  rw [hnames, List.forall_mem_map]
  intro p hp
  rw [← (hload p hp).1]
  exact (TypeDef.spelled_ofSyntax (hfits p hp).1 (hload p hp).2).name

/-! Lists with an item a line -/

def afterBullet? (line : String) : Option String :=
  match line.toList with
  | ' ' :: ' ' :: '*' :: ' ' :: item => some (String.ofList item)
  | _ => none

def bulletedItems (s : String) : List String := (Text.split '\n' s).filterMap afterBullet?

theorem afterBullet?_bullet (item : String) : afterBullet? ("  * " ++ item) = some item := by
  rw [afterBullet?, String.toList_append]
  exact congrArg some String.ofList_toList

theorem bulletedItems_bulleted {items : List String} (h : ∀ item ∈ items, '\n' ∉ item.toList) :
    bulletedItems (bulleted items) = items := by
  by_cases hne : items = []
  · subst hne
    rfl
  have hlines : ∀ line ∈ items.map fun item => ("  * " ++ item).toList, '\n' ∉ line := by
    refine List.forall_mem_map.2 fun item hitem => ?_
    rw [String.toList_append, List.mem_append, not_or]
    exact ⟨by decide, h item hitem⟩
  have hsplit : Text.split '\n' (bulleted items) = items.map ("  * " ++ ·) := by
    rw [Text.split, bulleted, String.toList_intercalate, List.map_map]
    refine (congrArg _ (Text.pieces_intercalate (by simpa using hne) hlines)).trans ?_
    rw [List.map_map]
    exact List.map_congr_left fun item _ => String.ofList_toList
  rw [bulletedItems, hsplit, List.filterMap_map]
  exact (List.filterMap_congr fun item _ => afterBullet?_bullet item).trans List.filterMap_some

theorem bulletedItems_heading {heading : String} (hheading : '\n' ∉ heading.toList)
    (hbullet : afterBullet? heading = none) (s : String) :
    bulletedItems (heading ++ "\n" ++ s) = bulletedItems s := by
  have hsplit : Text.split '\n' (heading ++ "\n" ++ s) = heading :: Text.split '\n' s := by
    have hlist : (heading ++ "\n" ++ s).toList = heading.toList ++ '\n' :: s.toList := by
      simp
    rw [Text.split, hlist, Text.pieces_append hheading, List.map_cons, String.ofList_toList]
    rfl
  rw [bulletedItems, hsplit, List.filterMap_cons_none hbullet]
  rfl

namespace Command

/-! The words that call for the commands -/

section Words

open Options

variable {path : String}

theorem addWord_path {d : Options.Declared} (hdash : path.toList.head? ≠ some '-') :
    addWord d ⟨⟨[], []⟩, .nothing, 0⟩ path = .ok ⟨⟨[], []⟩, .paths [path], 1⟩ := by
  unfold addWord
  split
  · simp_all
  · simp_all
  · simp [addPath, settle, Except.map]

theorem parse_path {d : Options.Declared} (hne : path ≠ "") (hdash : path.toList.head? ≠ some '-') :
    Options.parse d [path] = .ok ⟨[], [path]⟩ := by
  have hword : path ≠ "--" := by
    rintro rfl
    exact hdash rfl
  have hempty : "" ≠ path := hne.symm
  simp [Options.parse, scan, hword, addWord_path hdash, settle, bind, Except.bind, hempty]

theorem parse_validate (hne : path ≠ "") (hdash : path.toList.head? ≠ some '-') :
    parse ["validate", path] = .ok (some (.validate defaultExtensions [path])) := by
  simp only [parse, parseFrom, parseNamed?, parse_path hne hdash]
  rfl

theorem parse_types (hne : path ≠ "") (hdash : path.toList.head? ≠ some '-') :
    parse ["types", path] = .ok (some (.types false path)) := by
  simp only [parse, parseFrom, parseNamed?, parse_path hne hdash]
  rfl

end Words

/-! A single file -/

section Single

variable {root : Node} {path s : String}

theorem pathFault?_of_find {node : Node} (h : root.find path = .ok node) :
    pathFault? path = none := by
  unfold Node.find at h
  split at h
  · cases h
  · assumption

theorem ne_empty_of_find {text : Option String} (h : root.find path = .ok (.file text)) :
    path ≠ "" := by
  rintro rfl
  revert h
  cases root <;> simp [Node.find, pathFault?, Text.split, Text.pieces, Node.walk]

theorem findFiles_file (h : root.find path = .ok (.file (some s))) :
    findFiles root.find path = ⟨[(path, .ok s)], []⟩ := by
  unfold findFiles
  rw [h]
  simp only [Node.found, pathFault?_of_find h, Node.readText]

theorem filesToCheck_file (h : root.find path = .ok (.file (some s)))
    (extensions : List String) :
    filesToCheck root.find extensions [path] = [(path, .ok s)] := by
  by_cases hlisted : Listed extensions path
  · have hfiles : listedFiles root.find extensions [path] = [(path, .ok s)] := by
      unfold listedFiles
      rw [List.flatMap_singleton, findFiles_file h]
      exact List.filter_cons_of_pos (listed_iff.1 hlisted)
    rw [filesToCheck_eq, hfiles]
  · exact filesToCheck_only h hlisted

theorem faultComplaints_file (h : root.find path = .ok (.file (some s))) :
    faultComplaints root.find path = [] := by
  rw [faultComplaints, findFiles_file h]
  rfl

def acceptedReport (types : Nat) : String :=
  Output.check ++ " All data model schemas validated successfully:\n" ++
    "  * Analyzed " ++ Nat.repr 1 ++ " files.\n" ++
    "  * Validated " ++ types.repr ++ " type definitions."

theorem runValidate_accepts (h : root.find path = .ok (.file (some s)))
    (extensions : List String) (herrors : schemaErrors s = []) : ∃ g, Graph.parse [] s = .ok g ∧
      runValidate root.find extensions [path] = .ok (acceptedReport g.size) := by
  obtain ⟨g, hg⟩ := parse_of_schemaErrors_nil herrors
  have hnonempty : s ≠ "" := by
    rintro rfl
    cases herrors
  have hcomplaints : fileComplaints (path, .ok s) = [] :=
    fileComplaints_eq_nil_iff.2 ⟨⟨path, s, g⟩, rfl, hnonempty, herrors, hg⟩
  have hsuccess : (runValidate root.find extensions [path]).success = true := by
    rw [success_iff, filesToCheck_file h extensions, List.flatMap_singleton, List.flatMap_singleton]
    exact ⟨faultComplaints_file h, hcomplaints⟩
  obtain ⟨schemas, hrun⟩ := exists_analyses hsuccess
  obtain ⟨schema, rfl, hfile⟩ :=
    List.map_eq_singleton_iff.1 (hrun.files.symm.trans (filesToCheck_file h extensions))
  obtain rfl : schema.text = s := Except.ok.inj (congrArg Prod.snd hfile)
  refine ⟨schema.graph, (hrun.passes schema (List.mem_singleton_self schema)).graph, ?_⟩
  rw [hrun.report, List.map_singleton, List.sum_singleton]
  rfl

theorem runValidate_rejects {e : SchemaError} {es : List SchemaError}
    (h : root.find path = .ok (.file (some s))) (extensions : List String)
    (herrors : schemaErrors s = e :: es) :
    runValidate root.find extensions [path] =
      .failed (Output.cross ++ " Data model validation errors:\n" ++
        bulleted ((e :: es).map fun e => Text.shown path ++ ": " ++ e.message)) := by
  have hcomplaints : fileComplaints (path, .ok s) =
      (e :: es).map fun e => Text.shown path ++ ": " ++ e.message := by
    simp only [fileComplaints, checkFile, herrors, List.map_map]
    rfl
  unfold runValidate
  simp only [faultComplaints_file h, filesToCheck_file h extensions, List.flatMap_singleton,
    hcomplaints]
  rfl

theorem runTypes_accepts {g : Graph} (h : root.find path = .ok (.file (some s)))
    (hg : Graph.parse [] s = .ok g) :
    runTypes root.find false path = .ok ("Custom types:\n" ++ bulleted g.typeNames) := by
  simp only [runTypes, loadSchema, textAt, h, Node.readText, hg]
  rfl

theorem runTypes_rejects {e : SchemaError} (h : root.find path = .ok (.file (some s)))
    (he : Graph.parse [] s = .error e) : runTypes root.find false path =
      .complaint ("Failed to load schema file " ++ Text.shown path ++ ": " ++ e.message) := by
  simp only [runTypes, loadSchema, textAt, h, Node.readText, he]

theorem bulletedItems_runTypes {g : Graph} (hg : Graph.parse [] s = .ok g) :
    bulletedItems ("Custom types:\n" ++ bulleted g.typeNames) = g.typeNames := by
  have hheading : "Custom types:\n" = "Custom types:" ++ "\n" := rfl
  rw [hheading, bulletedItems_heading (by decide) (by decide), bulletedItems_bulleted]
  intro name hname hnewline
  have hall := Sdl.all_isNameChar (Graph.isName_of_parse hg name hname)
  exact absurd (List.all_eq_true.1 hall _ hnewline) (by decide)

end Single

/-- What the two commands say of a file with this text. -/
structure Agrees (find : Finder) (extensions : List String) (path s : String) : Prop where
  words : path.toList.head? ≠ some '-' →
    parse ["validate", path] = .ok (some (.validate defaultExtensions [path])) ∧
    parse ["types", path] = .ok (some (.types false path))
  success : (run find (.validate extensions [path])).success = true ↔
    s ≠ "" ∧ (run find (.types false path)).success = true
  count : (run find (.validate extensions [path])).success = true →
    ∃ listing, (run find (.types false path)).stdout = some listing ∧
      (run find (.validate extensions [path])).stdout =
        some (acceptedReport (bulletedItems listing).length)
  error : s ≠ "" → (run find (.validate extensions [path])).success = false →
    (run find (.types false path)).success = false →
    ∃ (e : SchemaError) (es : List SchemaError),
      (run find (.types false path)).stderr =
        some (Output.cross ++ " " ++
          ("Failed to load schema file " ++ Text.shown path ++ ": " ++ e.message)) ∧
      (run find (.validate extensions [path])).stderr =
        some (Output.cross ++ " Data model validation errors:\n" ++
          bulleted ((e :: es).map fun e => Text.shown path ++ ": " ++ e.message))

/-- Any file that holds a text, wherever it is and whatever its name. -/
theorem agrees_of_find {root : Node} {path s : String}
    (h : root.find path = .ok (.file (some s))) (extensions : List String) :
    Agrees root.find extensions path s := by
  have hpath := ne_empty_of_find h
  cases herrors : schemaErrors s with
  | nil =>
    obtain ⟨g, hg, hvalidate⟩ := runValidate_accepts h extensions herrors
    have htypes := runTypes_accepts h hg
    have hnonempty : s ≠ "" := by
      rintro rfl
      cases herrors
    constructor
    case words => exact fun hdash => ⟨parse_validate hpath hdash, parse_types hpath hdash⟩
    all_goals simp only [run, hvalidate, htypes]
    case success => exact iff_of_true rfl ⟨hnonempty, rfl⟩
    case count =>
      refine fun _ => ⟨_, rfl, ?_⟩
      rw [bulletedItems_runTypes hg, Graph.typeNames, Keyed.keys, List.length_map]
      rfl
    case error =>
      intro _ hfailed
      cases hfailed
  | cons e es =>
    have hvalidate := runValidate_rejects h extensions herrors
    have htypes (hnonempty : s ≠ "") :=
      runTypes_rejects h (parse_of_schemaErrors_cons hnonempty herrors)
    constructor
    case words => exact fun hdash => ⟨parse_validate hpath hdash, parse_types hpath hdash⟩
    all_goals simp only [run, hvalidate]
    case success =>
      refine iff_of_false Bool.false_ne_true fun hboth => ?_
      have hsuccess := hboth.2
      rw [htypes hboth.1] at hsuccess
      cases hsuccess
    case count =>
      intro hsuccess
      cases hsuccess
    case error =>
      intro hnonempty _ _
      rw [htypes hnonempty]
      exact ⟨e, es, rfl, rfl⟩

/-- Of two faults in a file the first is the one that listing its types stops at. -/
theorem agrees_of_find_post :
    let s := "type Post { author: Person } type Tag { post: Post author: Author }"
    let root : Node := .folder [("blog", .folder [("post.sdl", .file (some s))])]
    root.find "blog/post.sdl" = .ok (.file (some s)) ∧ (schemaErrors s).length = 2 ∧
      Agrees root.find defaultExtensions "blog/post.sdl" s ∧
        (run root.find (.validate defaultExtensions ["blog/post.sdl"])).success = false := by
  intro s root
  have hfind : root.find "blog/post.sdl" = .ok (.file (some s)) := rfl
  exact ⟨hfind, by decide +kernel, agrees_of_find hfind defaultExtensions, by decide +kernel⟩

end Command

end SchemaGraph
