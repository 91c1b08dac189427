import Mathlib.Algebra.Ring.Nat
import SchemaGraph.Command.Run

/-! What validation has looked at when it succeeds. Of a folder it looks at every file with a listed
extension, and of the paths that are files at those with one; at a file without one only if that
is all it was given. -/

namespace SchemaGraph

namespace Node

/-- The file is what a path leads to, or is under it in a folder. -/
inductive Holds : Node → String → String → Option String → Prop
  | file (path : String) (text : Option String) : Holds (.file text) path path text
  | folder {entries : List (String × Node)} {name : String} {node : Node} {path file : String}
      {text : Option String} : (name, node) ∈ entries → node.Holds (join path name) file text →
        Holds (.folder entries) path file text

theorem foundIn_files (path : String) (entries : List (String × Node)) :
    (foundIn path entries).files =
      entries.flatMap fun e => (e.2.found (join path e.1)).files := by
  induction entries with
  | nil => rfl
  | cons e es ih => rw [List.flatMap_cons, ← ih, foundIn, Found.append]

theorem foundIn_faults (path : String) (entries : List (String × Node)) :
    (foundIn path entries).faults =
      entries.flatMap fun e => (e.2.found (join path e.1)).faults := by
  induction entries with
  | nil => rfl
  | cons e es ih => rw [List.flatMap_cons, ← ih, foundIn, Found.append]

theorem Holds.exists_mem_found {node : Node} {path file : String} {text : Option String}
    (h : node.Holds path file text) (hfaults : (node.found path).faults = []) :
    ∃ r, (file, r) ∈ (node.found path).files ∧ ∀ s, r = .ok s → text = some s := by
  induction h with
  | file path text =>
    unfold found
    split
    · exact ⟨_, List.mem_singleton_self _, nofun⟩
    · refine ⟨_, List.mem_singleton_self _, fun s hs => ?_⟩
      cases text <;> cases hs
      rfl
  | @folder entries name node path file text hmem _ ih =>
    unfold found at hfaults ⊢
    split at hfaults
    · cases hfaults
    · rw [foundIn_faults, List.flatMap_eq_nil_iff] at hfaults
      obtain ⟨r, hr, htext⟩ := ih (hfaults _ hmem)
      refine ⟨r, ?_, htext⟩
      rw [foundIn_files]
      exact List.mem_flatMap.2 ⟨_, hmem, hr⟩

end Node

namespace Command

def Listed (extensions : List String) (file : String) : Prop :=
  ∃ e ∈ extensions, extension? file = some (String.ofList (e.toList.dropWhile (· = '.')))

theorem listed_iff {extensions : List String} {file : String} : Listed extensions file ↔
    (extension? file).any (extensions.map fun e =>
      String.ofList (e.toList.dropWhile (· = '.'))).contains = true := by
  unfold Listed
  cases extension? file with
  | none => simp
  | some e => simp [eq_comm]

/-! The files that are checked -/

section Files

variable (find : Finder) (extensions paths : List String)

def listedFiles : List (String × Except FileError String) :=
  paths.flatMap fun path => (findFiles find path).files.filter fun f =>
    (extension? f.1).any (extensions.map fun e =>
      String.ofList (e.toList.dropWhile (· = '.'))).contains

theorem filesToCheck_eq : filesToCheck find extensions paths =
    match listedFiles find extensions paths, paths with
    | [], [path] =>
      match find path with
      | .ok (.file text) => [(path, Node.readText (.file text))]
      | _ => []
    | files, _ => files := rfl

end Files

section Files

variable {find : Finder} {extensions paths : List String}
  {f : String × Except FileError String}

theorem mem_listedFiles : f ∈ listedFiles find extensions paths ↔
    (∃ path ∈ paths, f ∈ (findFiles find path).files) ∧ Listed extensions f.1 := by
  simp only [listedFiles, List.mem_flatMap, List.mem_filter, listed_iff]
  constructor
  · rintro ⟨path, hpath, hf, hlisted⟩
    exact ⟨⟨path, hpath, hf⟩, hlisted⟩
  · rintro ⟨⟨path, hpath, hf⟩, hlisted⟩
    exact ⟨path, hpath, hf, hlisted⟩

theorem mem_filesToCheck (hf : f ∈ listedFiles find extensions paths) :
    f ∈ filesToCheck find extensions paths := by
  rw [filesToCheck_eq]
  split
  · rename_i hnil
    rw [hnil] at hf
    cases hf
  · exact hf

theorem listed_or_only (hf : f ∈ filesToCheck find extensions paths) :
    Listed extensions f.1 ∨ paths = [f.1] := by
  rw [filesToCheck_eq] at hf
  split at hf
  · split at hf
    · cases List.mem_singleton.1 hf
      exact .inr rfl
    · cases hf
  · exact .inl (mem_listedFiles.1 hf).2

theorem filesToCheck_only {path : String} {text : Option String}
    (hfind : find path = .ok (.file text)) (hlisted : ¬Listed extensions path) :
    filesToCheck find extensions [path] = [(path, Node.readText (.file text))] := by
  have hnone : listedFiles find extensions [path] = [] := by
    refine List.eq_nil_iff_forall_not_mem.2 fun f hf => ?_
    obtain ⟨⟨path', hpath, hmem⟩, hext⟩ := mem_listedFiles.1 hf
    cases List.mem_singleton.1 hpath
    have hname : f.1 = path := by
      unfold findFiles at hmem
      simp only [hfind, Node.found] at hmem
      split at hmem <;> cases List.mem_singleton.1 hmem <;> rfl
    exact hlisted (hname ▸ hext)
  rw [filesToCheck_eq, hnone]
  simp only [hfind]

end Files

/-! What passes -/

structure Schema where
  path : String
  text : String
  graph : Graph

structure Schema.Passes (s : Schema) : Prop where
  nonempty : s.text ≠ ""
  errors : schemaErrors s.text = []
  graph : Graph.parse [] s.text = .ok s.graph

def Schema.file (s : Schema) : String × Except FileError String := (s.path, .ok s.text)

theorem fileComplaints_eq_nil_iff {f : String × Except FileError String} :
    fileComplaints f = [] ↔ ∃ s : Schema, f = s.file ∧ s.Passes := by
  obtain ⟨path, r⟩ := f
  constructor
  · intro h
    cases r with
    | error e => cases h
    | ok text =>
      unfold fileComplaints checkFile at h
      cases herrors : schemaErrors text with
      | cons e es =>
        simp only [herrors] at h
        cases h
      | nil =>
        cases hparse : Graph.parse [] text with
        | error e =>
          simp only [herrors, hparse] at h
          cases h
        | ok g =>
          refine ⟨⟨path, text, g⟩, rfl, fun hempty => ?_, herrors, hparse⟩
          cases hempty
          cases herrors
  · rintro ⟨s, heq, hs⟩
    cases heq
    simp only [fileComplaints, checkFile, hs.errors, hs.graph]

theorem Schema.Passes.checkFile {s : Schema} (h : s.Passes) :
    checkFile (.ok s.text) = .ok s.graph.size := by
  simp only [Command.checkFile, h.errors, h.graph]

theorem exists_schemas {files : List (String × Except FileError String)}
    (h : files.flatMap fileComplaints = []) :
    ∃ schemas : List Schema, files = schemas.map Schema.file ∧ (∀ s ∈ schemas, s.Passes) ∧
      typeCount files = (schemas.map fun s => s.graph.size).sum := by
  induction files with
  | nil => exact ⟨[], rfl, fun _ hs => absurd hs List.not_mem_nil, rfl⟩
  | cons f fs ih =>
    rw [List.flatMap_cons, List.append_eq_nil_iff] at h
    obtain ⟨s, rfl, hs⟩ := fileComplaints_eq_nil_iff.1 h.1
    obtain ⟨ss, rfl, hss, hcount⟩ := ih h.2
    refine ⟨s :: ss, rfl, List.forall_mem_cons.2 ⟨hs, hss⟩, ?_⟩
    rw [typeCount, hcount, Schema.file, hs.checkFile]
    rfl

/-! Runs -/

/-- What a run that succeeds has analysed, and what it says of that. -/
structure Analyses (find : Finder) (extensions paths : List String) (schemas : List Schema) :
    Prop where
  files : filesToCheck find extensions paths = schemas.map Schema.file
  passes : ∀ s ∈ schemas, s.Passes
  report : runValidate find extensions paths = .ok (Output.check ++
    " All data model schemas validated successfully:\n" ++
      "  * Analyzed " ++ schemas.length.repr ++ " files.\n" ++
      "  * Validated " ++ (schemas.map fun s : Schema => s.graph.size).sum.repr ++
        " type definitions.")

def Covered (schemas : List Schema) (path : String) (text : Option String) : Prop :=
  ∃ s ∈ schemas, s.path = path ∧ text = some s.text

def CoversFolders (find : Finder) (extensions paths : List String) (schemas : List Schema) :
    Prop :=
  ∀ path ∈ paths, ∀ entries, find path = .ok (.folder entries) → ∀ file text,
    (Node.folder entries).Holds path file text → Listed extensions file →
      Covered schemas file text

def CoversFiles (find : Finder) (paths : List String) (schemas : List Schema) : Prop :=
  ∀ path ∈ paths, ∀ text, find path = .ok (.file text) → Covered schemas path text

section Runs

variable {find : Finder} {extensions paths : List String} {schemas : List Schema}

theorem success_iff : (runValidate find extensions paths).success = true ↔
    paths.flatMap (faultComplaints find) = [] ∧
      (filesToCheck find extensions paths).flatMap fileComplaints = [] := by
  rw [← List.append_eq_nil_iff]
  simp only [runValidate]
  split
  · rename_i hnil
    exact iff_of_true rfl hnil
  · rename_i hcons
    exact iff_of_false nofun (hcons ·)

theorem exists_analyses (h : (runValidate find extensions paths).success = true) :
    ∃ schemas, Analyses find extensions paths schemas := by
  obtain ⟨hfaults, hfiles⟩ := success_iff.1 h
  obtain ⟨schemas, heq, hpasses, hcount⟩ := exists_schemas hfiles
  refine ⟨schemas, heq, hpasses, ?_⟩
  unfold runValidate
  simp only [hfaults, hfiles, List.append_nil, hcount]
  rw [heq, List.length_map]

theorem findFiles_faults (h : (runValidate find extensions paths).success = true) {path : String}
    (hpath : path ∈ paths) : (findFiles find path).faults = [] := by
  have hnil := List.flatMap_eq_nil_iff.1 (success_iff.1 h).1 path hpath
  exact List.map_eq_nil_iff.1 hnil

theorem Analyses.covered (hrun : Analyses find extensions paths schemas)
    (h : (runValidate find extensions paths).success = true) {path : String}
    (hpath : path ∈ paths) {node : Node} (hfind : find path = .ok node) {file : String}
    {text : Option String} (hfile : node.Holds path file text) (hlisted : Listed extensions file) :
    Covered schemas file text := by
  have hfound : findFiles find path = node.found path := by
    unfold findFiles
    rw [hfind]
  obtain ⟨r, hr, htext⟩ := hfile.exists_mem_found (hfound ▸ findFiles_faults h hpath)
  have hmem : (file, r) ∈ filesToCheck find extensions paths :=
    mem_filesToCheck (mem_listedFiles.2 ⟨⟨path, hpath, hfound ▸ hr⟩, hlisted⟩)
  rw [hrun.files] at hmem
  obtain ⟨s, hs, heq⟩ := List.mem_map.1 hmem
  cases heq
  exact ⟨s, hs, rfl, htext s.text rfl⟩

theorem Analyses.coversFiles_iff (hrun : Analyses find extensions paths schemas)
    (h : (runValidate find extensions paths).success = true) :
    CoversFiles find paths schemas ↔
      ∀ path ∈ paths, ∀ text, find path = .ok (.file text) →
        Listed extensions path ∨ paths = [path] := by
  constructor
  · intro hcovers path hpath text hfind
    obtain ⟨s, hs, rfl, -⟩ := hcovers path hpath text hfind
    have hmem : (s.path, .ok s.text) ∈ filesToCheck find extensions paths := by
      rw [hrun.files]
      exact List.mem_map_of_mem hs
    exact (listed_or_only hmem :)
  · intro hall path hpath text hfind
    by_cases hlisted : Listed extensions path
    · exact hrun.covered h hpath hfind (.file path text) hlisted
    · obtain rfl := (hall path hpath text hfind).resolve_left hlisted
      have hfiles := hrun.files
      rw [filesToCheck_only hfind hlisted] at hfiles
      obtain ⟨s, rfl, heq⟩ := List.map_eq_singleton_iff.1 hfiles.symm
      refine ⟨s, List.mem_singleton_self s, congrArg Prod.fst heq, ?_⟩
      have htext : Node.readText (.file text) = .ok s.text := (congrArg Prod.snd heq).symm
      cases text <;> cases htext
      rfl

/-- A run that succeeds has analysed every file with a listed extension in the folders it was given;
and the files it was given, exactly if each has a listed extension or it was given nothing else. -/
theorem runValidate_covers (h : (runValidate find extensions paths).success = true) :
    ∃ schemas, Analyses find extensions paths schemas ∧
      CoversFolders find extensions paths schemas ∧
      (CoversFiles find paths schemas ↔
        ∀ path ∈ paths, ∀ text, find path = .ok (.file text) →
          Listed extensions path ∨ paths = [path]) := by
  obtain ⟨schemas, hrun⟩ := exists_analyses h
  exact ⟨schemas, hrun, fun path hpath entries hfind file text hfile hlisted =>
    hrun.covered h hpath hfind hfile hlisted, hrun.coversFiles_iff h⟩

end Runs

theorem runValidate_covers_blog :
    let root : Node := .folder
      [("post.graphql", .file (some "type Post { title: String }")),
        ("more", .folder [("tag.graphql", .file (some "type Tag { name: String }")),
          ("notes.txt", .file (some "to do"))])]
    let paths := ["post.graphql", "more"]
    let extensions := ["graphql", "graphqls"]
    (runValidate root.find extensions paths).success = true ∧
      ∃ schemas, Analyses root.find extensions paths schemas ∧
        CoversFolders root.find extensions paths schemas ∧
          CoversFiles root.find paths schemas := by
  intro root paths extensions
  have hsuccess : (runValidate root.find extensions paths).success = true := by decide +kernel
  obtain ⟨schemas, hrun, hfolders, hfiles⟩ := runValidate_covers hsuccess
  refine ⟨hsuccess, schemas, hrun, hfolders, hfiles.2 fun path hpath text hfind => .inl ?_⟩
  rcases List.mem_cons.1 hpath with rfl | hpath
  · exact listed_iff.2 (by decide)
  · cases List.mem_singleton.1 hpath
    have hfolder : root.find "more" = .ok (.folder _) := rfl
    rw [hfolder] at hfind
    cases hfind

/-- Two files that are broken, and both left out. -/
theorem runValidate_skips_files :
    let root : Node := .folder
      [("a.sdl", .file (some "type A \x7b")), ("b.sdl", .file (some "type B \x7b"))]
    let paths := ["a.sdl", "b.sdl"]
    let extensions := ["graphql", "graphqls"]
    (runValidate root.find extensions paths).success = true ∧
      filesToCheck root.find extensions paths = [] ∧
      ∀ path ∈ paths, ∃ text, root.find path = .ok (.file (some text)) ∧
        schemaErrors text ≠ [] := by
  intro root paths extensions
  refine ⟨by decide +kernel, by decide +kernel, fun path hpath => ?_⟩
  rcases List.mem_cons.1 hpath with rfl | hpath
  · exact ⟨_, rfl, by decide +kernel⟩
  · cases List.mem_singleton.1 hpath
    exact ⟨_, rfl, by decide +kernel⟩

end Command

end SchemaGraph
