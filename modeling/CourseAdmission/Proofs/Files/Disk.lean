import CourseAdmission.Files.Disk
import CourseAdmission.Proofs.Except
import CourseAdmission.Proofs.Files.Tree

/-!
What is read from a disk after a file has been written to it.

Writing changes no folder, so every path that leads somewhere still leads there. The written file is
read back under its path, and files under paths that lead elsewhere are read as before.
-/

namespace CourseAdmission

/-! Paths -/

namespace Path

@[simp]
theorem splitSlashes_nil : pieces.splitSlashes [] = [[]] := rfl

theorem splitSlashes_slash (cs : List Char) :
    pieces.splitSlashes ('/' :: cs) = [] :: pieces.splitSlashes cs := rfl

theorem splitSlashes_of_ne {c : Char} (h : c ≠ '/') (cs : List Char) :
    pieces.splitSlashes (c :: cs) =
      match pieces.splitSlashes cs with
      | [] => [[c]]
      | piece :: others => (c :: piece) :: others := if_neg h

theorem splitSlashes_ne_nil (cs : List Char) : pieces.splitSlashes cs ≠ [] := by
  cases cs with
  | nil => exact List.cons_ne_nil _ _
  | cons c cs =>
    by_cases hslash : c = '/'
    · rw [hslash, splitSlashes_slash]
      exact List.cons_ne_nil _ _
    · rw [splitSlashes_of_ne hslash]
      split <;> exact List.cons_ne_nil _ _

theorem splitSlashes_append_slash (cs ds : List Char) :
    pieces.splitSlashes (cs ++ '/' :: ds) = pieces.splitSlashes cs ++ pieces.splitSlashes ds := by
  induction cs with
  | nil => rfl
  | cons c cs ih =>
    rw [List.cons_append]
    by_cases hslash : c = '/'
    · rw [hslash, splitSlashes_slash, splitSlashes_slash, ih, List.cons_append]
    · obtain ⟨piece, others, hcs⟩ := List.exists_cons_of_ne_nil (splitSlashes_ne_nil cs)
      rw [splitSlashes_of_ne hslash, splitSlashes_of_ne hslash, ih, hcs]
      rfl

theorem splitSlashes_of_not_mem {cs : List Char} (h : '/' ∉ cs) :
    pieces.splitSlashes cs = [cs] := by
  induction cs with
  | nil => rfl
  | cons c cs ih =>
    rw [List.mem_cons, not_or] at h
    rw [splitSlashes_of_ne (Ne.symm h.1), ih h.2]

theorem pieces_ne_nil (path : String) : pieces path ≠ [] := by
  rw [pieces, Ne, List.map_eq_nil_iff]
  exact splitSlashes_ne_nil _

/-- The path of an entry of a folder has the folder's pieces, and one more for the entry. -/
theorem exists_pieces_join (folder : String) :
    ∃ front, ∀ name : String, '/' ∉ name.toList → pieces (join folder name) = front ++ [name] := by
  have hlast (front : List Char) {name : String} (hname : '/' ∉ name.toList) :
      (pieces.splitSlashes (front ++ '/' :: name.toList)).map String.ofList =
        (pieces.splitSlashes front).map String.ofList ++ [name] := by
    rw [splitSlashes_append_slash, splitSlashes_of_not_mem hname]
    simp
  rcases folder.toList.eq_nil_or_concat with hnil | ⟨front, last, hconcat⟩
  · refine ⟨[], fun name hname => ?_⟩
    have hfolder : folder = "" := String.toList_eq_nil_iff.1 hnil
    rw [join, if_pos (.inl hfolder), pieces, hfolder]
    simp [splitSlashes_of_not_mem hname]
  · rw [List.concat_eq_append] at hconcat
    by_cases hslash : last = '/'
    · subst hslash
      refine ⟨(pieces.splitSlashes front).map String.ofList, fun name hname => ?_⟩
      have hends : folder.toList.getLast? = some '/' := by simp [hconcat]
      rw [join, if_pos (.inr hends), pieces, String.toList_append, hconcat, List.append_assoc]
      exact hlast front hname
    · refine ⟨pieces folder, fun name hname => ?_⟩
      have hother : ¬(folder = "" ∨ folder.toList.getLast? = some '/') := by
        rintro (rfl | hends)
        · simp at hconcat
        · simp [hconcat, hslash] at hends
      rw [join, if_neg hother, pieces, pieces]
      simpa using hlast folder.toList hname

end Path

namespace Disk

open FileTree

/-! Following paths -/

section

variable {root root' : FileTree} {start next place pieces further : List String} {piece : String}

/-- Where one piece of a path leads from a folder. -/
def Leads (start : List String) (piece : String) (next : List String) : Prop :=
  match Path.component? piece with
  | some (.name name) => name.utf8ByteSize ≤ Path.maxNameLength ∧ next = start ++ [name]
  | some .parent => next = start.dropLast
  | _ => next = start

theorem follow_cons (pieces : List String) : follow root start (piece :: pieces) =
    follow root start [piece] >>= fun next => follow root next pieces := by
  rw [follow, follow]
  split
  · rfl
  · rfl
  · split
    · split <;> rfl
    · rfl
    · rfl

theorem follow_singleton_eq_ok_iff : follow root start [piece] = .ok next ↔
    root.FolderAt start ∧ Leads start piece next := by
  rw [follow, FileTree.FolderAt, Leads]
  cases root.at? start with
  | none => simp
  | some tree =>
    cases tree with
    | file text => simp
    | folder entries =>
      cases Path.component? piece with
      | none => simp [follow, eq_comm]
      | some component =>
        cases component with
        | name name =>
          by_cases hfits : name.utf8ByteSize ≤ Path.maxNameLength
          · simp [hfits, follow, eq_comm]
          · simp [hfits]
        | root | current | parent => simp [follow, eq_comm]

/-- A path leads on from a folder by one piece after the other. -/
theorem follow_cons_eq_ok_iff : follow root start (piece :: pieces) = .ok place ↔
    root.FolderAt start ∧ ∃ next, Leads start piece next ∧ follow root next pieces = .ok place := by
  rw [follow_cons, bind_eq_ok_iff]
  simp only [follow_singleton_eq_ok_iff, and_assoc, exists_and_left]

/-- One piece leads to a folder, or into the folder that it is followed from. -/
theorem Leads.folderAt_or_eq (h : Leads start piece next) (hstart : root.FolderAt start) :
    root.FolderAt next ∨ ∃ name, next = start ++ [name] := by
  unfold Leads at h
  split at h
  case h_1 name _ => exact .inr ⟨name, h.2⟩
  case h_2 => exact .inl (h ▸ hstart.dropLast)
  case h_3 => exact .inl (h ▸ hstart)

theorem follow_append : follow root start (pieces ++ further) =
    follow root start pieces >>= fun place => follow root place further := by
  induction pieces generalizing start with
  | nil => rfl
  | cons piece pieces ih =>
    rw [List.cons_append, follow_cons, follow_cons pieces, bind_assoc]
    simp only [ih]

/-- What a path leads to is a folder, or the path has led to the folder that it is in. -/
theorem follow_spec (h : follow root start pieces = .ok place) :
    root.FolderAt place ∨ (∃ parent name, place = parent ++ [name] ∧ root.FolderAt parent) ∨
      (pieces = [] ∧ place = start) := by
  induction pieces generalizing start with
  | nil =>
    cases h
    exact .inr (.inr ⟨rfl, rfl⟩)
  | cons piece pieces ih =>
    obtain ⟨hstart, next, hnext, hrest⟩ := follow_cons_eq_ok_iff.1 h
    rcases ih hrest with hplace | hparent | ⟨-, rfl⟩
    · exact .inl hplace
    · exact .inr (.inl hparent)
    · rcases hnext.folderAt_or_eq hstart with hfolder | ⟨name, hname⟩
      · exact .inl hfolder
      · exact .inr (.inl ⟨start, name, hname, hstart⟩)

/-- A path still leads where it has led if no folder is lost. -/
theorem follow_mono (hfolders : ∀ names, root.FolderAt names → root'.FolderAt names)
    (h : follow root start pieces = .ok place) : follow root' start pieces = .ok place := by
  induction pieces generalizing start with
  | nil => exact h
  | cons piece pieces ih =>
    obtain ⟨hstart, next, hnext, hrest⟩ := follow_cons_eq_ok_iff.1 h
    exact follow_cons_eq_ok_iff.2 ⟨hfolders start hstart, next, hnext, ih hrest⟩

end

variable {disk disk' : Disk} {path other content text : String} {place : List String}

/-- Where a row of pieces begins, and the pieces that are followed from there. -/
def beginning (disk : Disk) : List String → List String × List String
  | "" :: pieces => ([], pieces)
  | pieces => (disk.working, pieces)

theorem beginning_cons_of_ne {piece : String} (hpiece : piece ≠ "") (pieces : List String) :
    disk.beginning (piece :: pieces) = (disk.working, piece :: pieces) := by
  simp [beginning, hpiece]

theorem locatePieces_eq (disk : Disk) (pieces : List String) :
    disk.locatePieces pieces = checkPath ("/".intercalate pieces) >>= fun _ =>
      follow disk.root (disk.beginning pieces).1 (disk.beginning pieces).2 := by
  cases pieces with
  | nil => rfl
  | cons piece pieces =>
    by_cases hpiece : piece = ""
    · subst hpiece
      rfl
    · rw [beginning_cons_of_ne hpiece]
      simp [locatePieces, hpiece]

/-- Paths lead where they have led on a disk that has no folder less. -/
theorem locate_mono (hfolders : ∀ names, disk.root.FolderAt names → disk'.root.FolderAt names)
    (hworking : disk'.working = disk.working) (h : disk.locate path = .ok place) :
    disk'.locate path = .ok place := by
  have hbeginning : disk'.beginning = disk.beginning := by
    unfold beginning
    rw [hworking]
  rw [locate, locatePieces_eq, bind_eq_ok_iff] at h ⊢
  obtain ⟨_, hcheck, hfollow⟩ := h
  rw [hbeginning]
  exact ⟨_, hcheck, follow_mono hfolders hfollow⟩

/-- What a row of pieces leads to is a folder, or it is in one. -/
theorem folderAt_or_exists_parent {pieces : List String}
    (h : disk.locatePieces pieces = .ok place) :
    disk.root.FolderAt place ∨
      ∃ parent name, place = parent ++ [name] ∧ disk.root.FolderAt parent := by
  rw [locatePieces_eq, bind_eq_ok_iff] at h
  obtain ⟨_, hcheck, hfollow⟩ := h
  rcases follow_spec hfollow with hfolder | hparent | ⟨hnil, -⟩
  · exact .inl hfolder
  · exact .inr hparent
  · -- Nothing is followed only for the empty path, which leads nowhere.
    have hempty : "/".intercalate pieces = "" := by
      unfold beginning at hnil
      split at hnil
      case h_1 pieces => rw [show pieces = [] from hnil]; rfl
      case h_2 => rw [show pieces = [] from hnil]; rfl
    rw [hempty] at hcheck
    cases hcheck

/-! Writing -/

/-- A file is written into a folder, under a name that is no folder's. -/
theorem exists_parent_of_write (h : disk.write path content = .ok disk') :
    ∃ parent name, disk.locate path = .ok (parent ++ [name]) ∧ disk.root.FolderAt parent ∧
      ¬disk.root.FolderAt (parent ++ [name]) ∧
      disk' = { disk with root := .put (.file content) (parent ++ [name]) disk.root } := by
  obtain ⟨place, hplace, hwrite⟩ := bind_eq_ok_iff.1 h
  split at hwrite
  · cases hwrite
  case h_2 hother =>
    cases hwrite
    have hfile : ¬disk.root.FolderAt place := fun ⟨entries, hentries⟩ => hother entries hentries
    obtain ⟨parent, name, rfl, hparent⟩ :=
      (folderAt_or_exists_parent hplace).resolve_left hfile
    exact ⟨parent, name, hplace, hparent, hfile, rfl⟩

/-- Nothing is only not written at a path that leads somewhere if a folder is there. -/
theorem folderAt_of_write {cause : StorageError} (h : disk.write path content = .error cause)
    (hplace : disk.locate path = .ok place) : disk.root.FolderAt place := by
  rw [write, hplace, ok_bind] at h
  split at h
  case h_1 entries hentries => exact ⟨entries, hentries⟩
  case h_2 => cases h

theorem folderAt_write_iff (h : disk.write path content = .ok disk') (names : List String) :
    disk'.root.FolderAt names ↔ disk.root.FolderAt names := by
  obtain ⟨parent, name, -, hparent, hfile, rfl⟩ := exists_parent_of_write h
  by_cases hnames : names = parent ++ [name]
  · subst hnames
    refine iff_of_false ?_ hfile
    rintro ⟨entries, hentries⟩
    cases (at?_put_self hparent).symm.trans hentries
  · exact (at?_put_of_ne hparent hfile hnames).1

/-- Paths lead where they led before a file was written. -/
theorem locate_write (h : disk.write path content = .ok disk')
    (hother : disk.locate other = .ok place) : disk'.locate other = .ok place := by
  refine locate_mono (fun names => (folderAt_write_iff h names).2) ?_ hother
  obtain ⟨parent, name, -, -, -, rfl⟩ := exists_parent_of_write h
  rfl

theorem read_eq_ok_iff : disk.read path = .ok text ↔
    ∃ place, disk.locate path = .ok place ∧ disk.root.at? place = some (.file text) := by
  unfold read find
  rw [bind_eq_ok_iff]
  constructor
  · rintro ⟨tree, htree, htext⟩
    obtain ⟨place, hplace, hfound⟩ := bind_eq_ok_iff.1 htree
    split at hfound
    case h_1 found hat =>
      cases hfound
      split at htext
      · cases htext
        exact ⟨place, hplace, hat⟩
      · cases htext
    case h_2 => cases hfound
  · rintro ⟨place, hplace, hat⟩
    refine ⟨.file text, bind_eq_ok_iff.2 ⟨place, hplace, ?_⟩, rfl⟩
    rw [hat]
    rfl

/-- A file that has been written is read back. -/
theorem read_write_self (h : disk.write path content = .ok disk') :
    disk'.read path = .ok content := by
  obtain ⟨parent, name, hplace, hparent, -, hdisk⟩ := exists_parent_of_write h
  refine read_eq_ok_iff.2 ⟨_, locate_write h hplace, ?_⟩
  rw [hdisk]
  exact at?_put_self hparent

/-- A file under a path that leads elsewhere is read as before. -/
theorem read_write_of_ne (h : disk.write path content = .ok disk')
    (hne : disk.locate path ≠ disk.locate other) (hread : disk.read other = .ok text) :
    disk'.read other = .ok text := by
  obtain ⟨parent, name, hpath, hparent, hfile, hdisk⟩ := exists_parent_of_write h
  obtain ⟨place, hplace, hat⟩ := read_eq_ok_iff.1 hread
  refine read_eq_ok_iff.2 ⟨place, locate_write h hplace, ?_⟩
  have helse : place ≠ parent ++ [name] := by
    rintro rfl
    exact hne (hpath.trans hplace.symm)
  rw [hdisk]
  exact ((at?_put_of_ne hparent hfile helse).2 text).2 hat

/-! Entries of a folder -/

/-- A text that names an entry of a folder when it is joined to the folder's path. -/
def IsEntryName (name : String) : Prop :=
  '/' ∉ name.toList ∧ Path.component? name = some (.name name)

instance (name : String) : Decidable (IsEntryName name) := inferInstanceAs (Decidable (_ ∧ _))

/-- The path of an entry leads to a place of the entry's name. -/
theorem getLast?_of_locate_join {folder name : String} (hname : IsEntryName name)
    (h : disk.locate (Path.join folder name) = .ok place) : place.getLast? = some name := by
  obtain ⟨front, hfront⟩ := Path.exists_pieces_join folder
  rw [locate, hfront name hname.1, locatePieces_eq, bind_eq_ok_iff] at h
  obtain ⟨_, -, hfollow⟩ := h
  have hne : name ≠ "" := by
    rintro rfl
    simp [IsEntryName, Path.component?] at hname
  have hbeginning : (disk.beginning (front ++ [name])).2 =
      (disk.beginning front).2 ++ [name] := by
    cases front with
    | nil => exact congrArg Prod.snd (beginning_cons_of_ne hne [])
    | cons piece front =>
      by_cases hpiece : piece = ""
      · subst hpiece
        rfl
      · rw [List.cons_append, beginning_cons_of_ne hpiece, beginning_cons_of_ne hpiece]
        rfl
  rw [hbeginning, follow_append, bind_eq_ok_iff] at hfollow
  obtain ⟨parent, -, hlast⟩ := hfollow
  obtain ⟨-, hnext⟩ := follow_singleton_eq_ok_iff.1 hlast
  unfold Leads at hnext
  rw [hname.2] at hnext
  rw [hnext.2]
  exact List.getLast?_concat

/-- The paths of different entries of a folder lead to different places. -/
theorem locate_join_ne {folder name name' : String} (hname : IsEntryName name)
    (hname' : IsEntryName name') (hne : name ≠ name')
    (h : disk.locate (Path.join folder name) = .ok place) :
    disk.locate (Path.join folder name) ≠ disk.locate (Path.join folder name') := by
  intro hsame
  have hlast := getLast?_of_locate_join hname h
  have hlast' := getLast?_of_locate_join hname' (hsame.symm.trans h)
  exact hne (Option.some_inj.1 (hlast.symm.trans hlast'))

end Disk

end CourseAdmission
