import CourseAdmission.Proofs.Files.Disk

/-!
What stands on a disk after folders have been made.

A folder is only made where nothing is, so all files stay as they are, and a path that has led
somewhere still leads there.
-/

namespace CourseAdmission.Disk

open FileTree

variable {disk disk' disk'' : Disk} {path : String} {pieces : List String}

/-- The other disk has the same files. It may have more folders. -/
structure SameFiles (disk disk' : Disk) : Prop where
  working_eq : disk'.working = disk.working
  folderAt : ∀ names, disk.root.FolderAt names → disk'.root.FolderAt names
  file_iff : ∀ names text,
    disk'.root.at? names = some (.file text) ↔ disk.root.at? names = some (.file text)

namespace SameFiles

theorem refl (disk : Disk) : disk.SameFiles disk where
  working_eq := rfl
  folderAt _ h := h
  file_iff _ _ := Iff.rfl

theorem trans (h : disk.SameFiles disk') (h' : disk'.SameFiles disk'') :
    disk.SameFiles disk'' where
  working_eq := h'.working_eq.trans h.working_eq
  folderAt names hnames := h'.folderAt names (h.folderAt names hnames)
  file_iff names text := (h'.file_iff names text).trans (h.file_iff names text)

end SameFiles

theorem sameFiles_of_makeFolder (h : disk.makeFolder pieces = .ok disk') :
    disk.SameFiles disk' := by
  obtain ⟨_, -, h⟩ := bind_eq_ok_iff.1 h
  obtain ⟨place, hplace, h⟩ := bind_eq_ok_iff.1 h
  split at h
  case h_1 hnone _ =>
    cases h
    have hfolder : ¬disk.root.FolderAt place := fun ⟨entries, hentries⟩ => by
      cases hnone.symm.trans hentries
    obtain ⟨parent, name, rfl, hparent⟩ :=
      (folderAt_or_exists_parent hplace).resolve_left hfolder
    constructor
    case working_eq => rfl
    case folderAt => exact fun names => (at?_put_folder hparent hnone names).1
    case file_iff => exact fun names => (at?_put_folder hparent hnone names).2
  case h_2 => cases h

theorem sameFiles_of_ensureFolder (h : disk.ensureFolder pieces = .ok disk') :
    disk.SameFiles disk' := by
  rw [ensureFolder] at h
  split at h
  case h_1 made hmade =>
    cases h
    exact sameFiles_of_makeFolder hmade
  case h_2 =>
    -- What could not be made is there, or it is missed.
    split at h
    · split at h
      · cases h
        exact .refl _
      · cases h
    · cases h

theorem sameFiles_of_foldlM {folders : List (List String)}
    (h : folders.foldlM ensureFolder disk = .ok disk') : disk.SameFiles disk' := by
  induction folders generalizing disk with
  | nil =>
    cases h
    exact .refl _
  | cons folder folders ih =>
    rw [List.foldlM_cons] at h
    obtain ⟨next, hnext, h⟩ := bind_eq_ok_iff.1 h
    exact (sameFiles_of_ensureFolder hnext).trans (ih h)

theorem sameFiles_of_makeFolders (h : disk.makeFolders path = .ok disk') :
    disk.SameFiles disk' := by
  rw [makeFolders] at h
  split at h
  case isTrue =>
    cases h
    exact .refl _
  case isFalse =>
    split at h
    · obtain ⟨outer, houter, h⟩ := bind_eq_ok_iff.1 h
      exact (sameFiles_of_foldlM houter).trans (sameFiles_of_ensureFolder h)
    · exact sameFiles_of_ensureFolder h

end CourseAdmission.Disk
