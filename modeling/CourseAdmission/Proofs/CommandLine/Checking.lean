import CourseAdmission.CommandLine.Run
import CourseAdmission.Proofs.CommandLine.Arguments
import CourseAdmission.Proofs.Files.Listing

/-!
Checking all criteria below a folder.

Each file is found once, in the order of the paths, and something is printed on each. The check
succeeds if and only if all of them can be loaded.
-/

namespace CourseAdmission

/-- The warnings on the criteria in a file; there are none if it cannot be loaded. -/
def Disk.lintOf (disk : Disk) (path : String) : List LintWarning :=
  (disk.loadCriteria path).toOption.elim [] (·.lint)

namespace CommandLine

variable {disk : Disk} {path : String} {tree : FileTree}

theorem lintCount_map (disk : Disk) (files : List String) :
    lintCount (files.map disk.loadCriteria) = (files.flatMap disk.lintOf).length := by
  induction files with
  | nil => rfl
  | cons file files ih =>
    rw [List.map_cons, List.flatMap_cons, List.length_append, ← ih, Disk.lintOf]
    cases disk.loadCriteria file with
    | ok criteria => rfl
    | error cause => simp [lintCount, Except.toOption]

theorem validateFiles_eq (disk : Disk) (files : List String) : validateFiles disk files =
    let printed := files.flatMap fun file => checkedLines file (disk.loadCriteria file)
    let invalid := files.countP fun file => !(disk.loadCriteria file).isOk
    if ∀ file ∈ files, (disk.loadCriteria file).isOk = true then
      ⟨printed ++ closingLines
          ("All admission criteria valid (" ++ toString files.length ++ " files).")
          (files.flatMap disk.lintOf).length,
        [], .done, disk⟩
    else ⟨printed, [], .failed (.invalidFiles invalid files.length), disk⟩ := by
  have hresults : (files.map fun path => (path, disk.loadCriteria path)).map (·.2) =
      files.map disk.loadCriteria := by simp
  have hinvalid : (files.countP fun file => !(disk.loadCriteria file).isOk) = 0 ↔
      ∀ file ∈ files, (disk.loadCriteria file).isOk = true := by simp [List.countP_eq_zero]
  rw [validateFiles, hresults, lintCount_map, List.flatMap_map, List.countP_map]
  dsimp only [Function.comp_def]
  by_cases h : ∀ file ∈ files, (disk.loadCriteria file).isOk = true
  · rw [if_pos (hinvalid.2 h), if_pos h]
  · rw [if_neg (mt hinvalid.1 h), if_neg h]

/-- What is found below a folder, and what its check prints. -/
structure ChecksFolder (disk : Disk) (path : String) (tree : FileTree)
    (places : List (List String)) : Prop where
  /-- The places are those of the files with the ending of criteria. -/
  mem_places_iff : ∀ names, names ∈ places ↔
    (∃ content, tree.at? names = some (.file content)) ∧ Path.NamesCriteria names
  /-- No place is there twice, and they are in the order of their names. -/
  pairwise_lt : places.Pairwise (· < ·)
  components_eq : ∀ names ∈ places, Path.components (Path.below path names) =
    Path.components path ++ names.map .name
  criteriaFiles_eq : disk.criteriaFiles path = .ok (places.map (Path.below path))
  /-- The same files are found if the entries of the folders are listed in another order. -/
  criteriaFiles_reordered : ∀ (disk' : Disk) (tree' : FileTree),
    disk'.folder? path = some tree' → tree'.WellNamed → FileTree.Followed path tree' →
    (∀ names, (∃ content, tree'.at? names = some (.file content)) ↔
      ∃ content, tree.at? names = some (.file content)) →
    disk'.criteriaFiles path = disk.criteriaFiles path
  exitCode_eq_zero_iff : (validate disk path).exitCode = 0 ↔
    ∀ file ∈ places.map (Path.below path), ∃ criteria, disk.loadCriteria file = .ok criteria
  validate_eq : validate disk path =
    let files := places.map (Path.below path)
    let printed := files.flatMap fun file => checkedLines file (disk.loadCriteria file)
    let invalid := files.countP fun file => !(disk.loadCriteria file).isOk
    if ∀ file ∈ files, (disk.loadCriteria file).isOk = true then
      ⟨printed ++ closingLines
          ("All admission criteria valid (" ++ toString files.length ++ " files).")
          (files.flatMap disk.lintOf).length,
        [], .done, disk⟩
    else ⟨printed, [], .failed (.invalidFiles invalid files.length), disk⟩
  run_eq : ∀ environment stamp schedule asked settings,
    Settings.load disk environment asked = .ok settings →
    Invocation.run disk environment stamp schedule ⟨asked, .validate path⟩ = validate disk path

theorem criteriaFiles_eq_ok (htree : disk.folder? path = some tree) :
    disk.criteriaFiles path = .ok (tree.criteriaFiles path) := by
  unfold Disk.criteriaFiles
  rw [htree]

theorem isFolder_of_folder? (htree : disk.folder? path = some tree) : tree.isFolder = true := by
  unfold Disk.folder? at htree
  split at htree
  · split at htree
    case isTrue hfolder =>
      cases htree
      exact hfolder
    case isFalse => cases htree
  · cases htree

def folderAndFile : FileTree :=
  .folder [("a.json", .file "[]"), ("notes.txt", .file ""),
    ("a", .folder [("b.toml", .file ""), ("c.json", .file "oops")])]

def diskWith (tree : FileTree) : Disk := ⟨.folder [("tree", tree)], []⟩

theorem followed_folderAndFile : FileTree.Followed "tree" folderAndFile := by
  have hinner :
      FileTree.Followed "tree/a" (.folder [("b.toml", .file ""), ("c.json", .file "oops")]) :=
    FileTree.followed_folder (by decide) (by simp [FileTree.followed_file])
  have hjoin : Path.join "tree" "a" = "tree/a" := by decide
  exact FileTree.followed_folder (by decide) (by simp [FileTree.followed_file, hjoin, hinner])

/-- The path of a folder, with some slashes at its end. -/
def slashed : Nat → String
  | 0 => "tree"
  | slashes + 1 => slashed slashes ++ "/"

theorem utf8ByteSize_slashed (slashes : Nat) : (slashed slashes).utf8ByteSize = slashes + 4 := by
  induction slashes with
  | zero => decide
  | succ slashes ih =>
    have hslash : "/".utf8ByteSize = 1 := by decide
    rw [slashed, String.utf8ByteSize_append, ih, hslash, Nat.add_right_comm]

theorem nul_not_mem_slashed (slashes : Nat) : '\x00' ∉ (slashed slashes).toList := by
  induction slashes with
  | zero => decide
  | succ slashes ih => simp [slashed, ih]

theorem pieces_slashed (slashes : Nat) :
    Path.pieces (slashed slashes) = "tree" :: List.replicate slashes "" := by
  induction slashes with
  | zero => decide
  | succ slashes ih =>
    rw [slashed, Path.pieces, String.toList_append, show "/".toList = ['/'] by decide,
      Path.splitSlashes_append_slash, List.map_append]
    rw [Path.pieces] at ih
    rw [ih, List.replicate_succ']
    rfl

/-- Empty pieces lead nowhere else. -/
theorem follow_replicate {root : FileTree} {place : List String} (h : root.FolderAt place)
    (n : Nat) : Disk.follow root place (List.replicate n "") = .ok place := by
  induction n with
  | zero => rfl
  | succ n ih => exact Disk.follow_cons_eq_ok_iff.2 ⟨h, place, rfl, ih⟩

theorem folder?_slashed {entries : List (String × FileTree)} {slashes : Nat}
    (h : slashes + 4 ≤ Path.maxLength) :
    (diskWith (.folder entries)).folder? (slashed slashes) = some (.folder entries) := by
  have hcheck : Disk.checkPath (slashed slashes) = .ok () := by
    have hempty : slashed slashes ≠ "" := by
      intro hempty
      have hsize := utf8ByteSize_slashed slashes
      rw [hempty] at hsize
      simp at hsize
    have hfits : Path.Fits (slashed slashes) := by rwa [Path.Fits, utf8ByteSize_slashed]
    rw [Disk.checkPath, if_neg (by simpa using nul_not_mem_slashed slashes), if_neg hempty,
      if_pos hfits]
  have htree : (diskWith (.folder entries)).root.at? ["tree"] = some (.folder entries) := rfl
  have hlocate : (diskWith (.folder entries)).locate (slashed slashes) = .ok ["tree"] := by
    rw [Disk.locate, Disk.locatePieces_eq, Path.intercalate_pieces, hcheck, pieces_slashed,
      Disk.beginning_cons_of_ne (by decide), ok_bind]
    exact follow_replicate ⟨entries, htree⟩ slashes
  unfold Disk.folder? Disk.find
  rw [hlocate, ok_bind, htree]
  rfl

/-- A folder whose name has the ending of criteria, with a file in it. -/
def nested : FileTree := .folder [("sub.json", .folder [("a.json", .file "[]")])]

theorem wellNamed_nested : nested.WellNamed := by
  simp [nested, FileTree.WellNamed, FileTree.WellNamedEntries, Disk.IsEntryName, Path.component?]

/-- Of a folder whose path is too long to be followed, only the path is found. -/
theorem criteriaFiles_nested {slashes : Nat} (hpath : slashes + 5 ≤ Path.maxLength)
    (hinner : Path.maxLength < slashes + 13) :
    nested.criteriaFiles (slashed (slashes + 1)) =
      [Path.below (slashed (slashes + 1)) ["sub.json"]] := by
  have hfits : Path.Fits (slashed (slashes + 1)) := by
    rw [Path.Fits, utf8ByteSize_slashed]
    omega
  have hjoin :
      Path.join (slashed (slashes + 1)) "sub.json" = slashed (slashes + 1) ++ "sub.json" := by
    rw [Path.join, if_pos (.inr (by simp [slashed]))]
  have hlong : ¬Path.Fits (Path.join (slashed (slashes + 1)) "sub.json") := by
    have hname : "sub.json".utf8ByteSize = 8 := by decide
    rw [Path.Fits, hjoin, String.utf8ByteSize_append, utf8ByteSize_slashed, hname]
    omega
  have hcriteria :
      Path.isCriteriaFile (Path.below (slashed (slashes + 1)) ["sub.json"]) = true := by
    rw [Path.isCriteriaFile_below_iff (List.cons_ne_nil _ _) (by decide)]
    exact ⟨[], "sub", "json", by decide, by simp, by decide⟩
  have hlisted : nested.listed (slashed (slashes + 1)) =
      [Path.below (slashed (slashes + 1)) ["sub.json"]] := by
    rw [nested, FileTree.listed, if_pos hfits, FileTree.listedEntries, FileTree.listedEntries,
      FileTree.listed, if_neg hlong]
    rfl
  rw [FileTree.criteriaFiles, hlisted, List.filter_cons_of_pos hcriteria, List.filter_nil,
    List.mergeSort_singleton]

end CommandLine

end CourseAdmission
