import CourseAdmission.Files.Tree
import Mathlib.Data.List.Basic

/-!
What stands in a tree of folders after something has been put into it.

A file is put into a folder that is there, under a name that is no folder's. Then it stands at its
place, all other files stay, and the folders are the same. A folder is put where nothing is, and
then all files stay.
-/

namespace CourseAdmission.FileTree

variable {tree : FileTree} {name : String} {place names : List String}

theorem lookup_cons_eq_ite (given other : String) (entry : FileTree)
    (entries : List (String × FileTree)) :
    ((given, entry) :: entries).lookup other =
      if other = given then some entry else entries.lookup other := by
  by_cases h : other = given
  · rw [if_pos h, h, List.lookup_cons_self]
  · rw [if_neg h, List.lookup_cons, beq_eq_false_iff_ne.2 h]

theorem lookup_setEntry (name other : String) (entry : FileTree)
    (entries : List (String × FileTree)) :
    (setEntry name entry entries).lookup other =
      if other = name then some entry else entries.lookup other := by
  induction entries with
  | nil => exact lookup_cons_eq_ite name other entry []
  | cons first entries ih =>
    obtain ⟨given, tree⟩ := first
    rw [setEntry]
    by_cases hname : given = name
    · rw [if_pos hname, lookup_cons_eq_ite, lookup_cons_eq_ite, hname]
      split <;> rfl
    · rw [if_neg hname, lookup_cons_eq_ite, lookup_cons_eq_ite, ih]
      by_cases hother : other = given
      · subst hother
        simp [hname]
      · simp [hother]

theorem at?_append (tree : FileTree) (names further : List String) :
    tree.at? (names ++ further) = (tree.at? names).bind (·.at? further) := by
  induction names generalizing tree with
  | nil => rfl
  | cons name names ih =>
    rw [List.cons_append, at?, at?, Option.bind_assoc]
    exact Option.bind_congr fun entry _ => ih entry

theorem at?_folder_cons (entries : List (String × FileTree)) (name : String)
    (names : List String) :
    (folder entries).at? (name :: names) = (entries.lookup name).bind (·.at? names) := rfl

theorem at?_nil (tree : FileTree) : tree.at? [] = some tree := rfl

/-- Nothing is below a file. -/
theorem at?_file_cons (text : String) (name : String) (names : List String) :
    (file text).at? (name :: names) = none := rfl

/-- The names lead to a folder. -/
def FolderAt (tree : FileTree) (names : List String) : Prop :=
  ∃ entries, tree.at? names = some (folder entries)

theorem FolderAt.of_append {further : List String} (h : tree.FolderAt (names ++ further)) :
    tree.FolderAt names := by
  obtain ⟨entries, h⟩ := h
  rw [at?_append, Option.bind_eq_some_iff] at h
  obtain ⟨entry, hentry, hfurther⟩ := h
  cases entry with
  | folder inner => exact ⟨inner, hentry⟩
  | file text => cases further <;> cases hfurther

theorem FolderAt.of_cons (h : tree.FolderAt (name :: names)) :
    ∃ entries entry, tree = folder entries ∧ entries.lookup name = some entry ∧
      entry.FolderAt names := by
  obtain ⟨entries, hentries⟩ := h
  cases tree with
  | file text => cases hentries
  | folder inner =>
    rw [at?_folder_cons, Option.bind_eq_some_iff] at hentries
    obtain ⟨entry, hentry, hrest⟩ := hentries
    exact ⟨inner, entry, rfl, hentry, entries, hrest⟩

theorem FolderAt.dropLast (h : tree.FolderAt names) : tree.FolderAt names.dropLast := by
  obtain rfl | ⟨front, last, rfl⟩ := names.eq_nil_or_concat
  · exact h
  · rw [List.concat_eq_append] at h ⊢
    rw [List.dropLast_concat]
    exact h.of_append

/-- What is put below a folder changes what the same name leads to, and nothing else. -/
theorem at?_put_cons (content : FileTree) (entries : List (String × FileTree)) (other : String)
    (others : List String) :
    (put content (name :: names) (folder entries)).at? (other :: others) =
      if other = name then
        (put content names ((entries.lookup name).getD (folder []))).at? others
      else (folder entries).at? (other :: others) := by
  rw [put, at?_folder_cons, lookup_setEntry]
  split
  · rfl
  · rfl

variable {text : String} {parent others : List String}

/-- What is put into a folder stands there. -/
theorem at?_put_self {content : FileTree} (hparent : tree.FolderAt parent) :
    (put content (parent ++ [name]) tree).at? (parent ++ [name]) = some content := by
  induction parent generalizing tree with
  | nil =>
    obtain ⟨entries, hentries⟩ := hparent
    cases hentries
    rw [List.nil_append, at?_put_cons, if_pos rfl]
    rfl
  | cons step parent ih =>
    obtain ⟨inner, entry, rfl, hentry, hrest⟩ := hparent.of_cons
    rw [List.cons_append, at?_put_cons, if_pos rfl, hentry]
    exact ih hrest

/-- Names that do not lead through a place find the same folders and files as before, whatever is
    put there. -/
theorem at?_put_of_not_prefix (content : FileTree) (hparent : tree.FolderAt parent)
    (hother : ¬parent ++ [name] <+: others) :
    ((put content (parent ++ [name]) tree).FolderAt others ↔ tree.FolderAt others) ∧
      ∀ s, (put content (parent ++ [name]) tree).at? others = some (file s) ↔
        tree.at? others = some (file s) := by
  induction parent generalizing tree others with
  | nil =>
    obtain ⟨entries, hentries⟩ := hparent
    cases hentries
    rw [List.nil_append] at hother ⊢
    cases others with
    | nil => exact ⟨⟨fun _ => ⟨_, rfl⟩, fun _ => ⟨_, rfl⟩⟩, fun s => ⟨nofun, nofun⟩⟩
    | cons other others =>
      have hname : other ≠ name := by
        rintro rfl
        exact hother (List.prefix_append [other] others)
      rw [FolderAt, FolderAt, at?_put_cons, if_neg hname]
      exact ⟨Iff.rfl, fun s => Iff.rfl⟩
  | cons step parent ih =>
    obtain ⟨inner, entry, rfl, hentry, hrest⟩ := hparent.of_cons
    rw [List.cons_append] at hother ⊢
    cases others with
    | nil => exact ⟨⟨fun _ => ⟨_, rfl⟩, fun _ => ⟨_, rfl⟩⟩, fun s => ⟨nofun, nofun⟩⟩
    | cons other others =>
      rw [FolderAt, FolderAt, at?_put_cons]
      by_cases hstep : other = step
      · subst hstep
        rw [if_pos rfl, at?_folder_cons, hentry, Option.getD_some, Option.bind_some]
        exact ih hrest fun hsame => hother (List.cons_prefix_cons.2 ⟨rfl, hsame⟩)
      · rw [if_neg hstep]
        exact ⟨Iff.rfl, fun s => Iff.rfl⟩

/-- Nothing is below a place where no folder is. -/
theorem at?_append_cons_of_not_folderAt (hplace : ¬tree.FolderAt place) (below : String)
    (further : List String) : tree.at? (place ++ below :: further) = none := by
  rw [at?_append]
  cases hat : tree.at? place with
  | none => rfl
  | some entry =>
    cases entry with
    | file s => rfl
    | folder inner => exact absurd ⟨inner, hat⟩ hplace

/-- A file that is put where no folder is leaves all folders and all other files as they are. -/
theorem at?_put_of_ne (hparent : tree.FolderAt parent)
    (hplace : ¬tree.FolderAt (parent ++ [name])) (hother : others ≠ parent ++ [name]) :
    ((put (file text) (parent ++ [name]) tree).FolderAt others ↔ tree.FolderAt others) ∧
      ∀ s, (put (file text) (parent ++ [name]) tree).at? others = some (file s) ↔
        tree.at? others = some (file s) := by
  by_cases hprefix : parent ++ [name] <+: others
  · obtain ⟨further, rfl⟩ := hprefix
    cases further with
    | nil => exact absurd (List.append_nil _) hother
    | cons below further =>
      -- Below the new file is nothing, and nothing was: what it replaces is no folder.
      have hbefore := at?_append_cons_of_not_folderAt hplace below further
      have hafter : (put (file text) (parent ++ [name]) tree).at?
          (parent ++ [name] ++ below :: further) = none := by
        rw [at?_append, at?_put_self hparent]
        rfl
      rw [FolderAt, FolderAt, hbefore, hafter]
      simp
  · exact at?_put_of_not_prefix _ hparent hprefix

/-- A folder that is put where nothing is changes no file, and no folder is lost. -/
theorem at?_put_folder (hparent : tree.FolderAt parent)
    (hplace : tree.at? (parent ++ [name]) = none) (names : List String) :
    (tree.FolderAt names → (put (folder []) (parent ++ [name]) tree).FolderAt names) ∧
      ∀ s, (put (folder []) (parent ++ [name]) tree).at? names = some (file s) ↔
        tree.at? names = some (file s) := by
  by_cases hprefix : parent ++ [name] <+: names
  · obtain ⟨further, rfl⟩ := hprefix
    have hbefore : tree.at? (parent ++ [name] ++ further) = none := by
      rw [at?_append, hplace]
      rfl
    have hafter : (put (folder []) (parent ++ [name]) tree).at? (parent ++ [name] ++ further) =
        (folder []).at? further := by
      rw [at?_append, at?_put_self hparent]
      rfl
    refine ⟨fun ⟨entries, hentries⟩ => ?_, fun s => ?_⟩
    · cases hbefore.symm.trans hentries
    · rw [hbefore, hafter]
      cases further with
      | nil => simp [at?_nil]
      | cons below further => simp [at?_folder_cons]
  · obtain ⟨hfolders, hfiles⟩ := at?_put_of_not_prefix (folder []) hparent hprefix
    exact ⟨hfolders.2, hfiles⟩

end CourseAdmission.FileTree
