import CourseAdmission.Proofs.Files.Path
import Mathlib.Data.List.Nodup

/-!
The files below a folder that may hold criteria, in the order of their paths.

They are the same in whatever order the entries of the folders are listed.
-/

namespace CourseAdmission.FileTree

open Disk (IsEntryName)

mutual

/-- The entries of every folder have names that can be joined to a path, and no two entries of a
    folder have the same one. -/
def WellNamed : FileTree → Prop
  | file _ => True
  | folder entries => WellNamedEntries entries

def WellNamedEntries : List (String × FileTree) → Prop
  | [] => True
  | (name, tree) :: entries =>
    IsEntryName name ∧ entries.lookup name = none ∧ tree.WellNamed ∧ WellNamedEntries entries

end

/-- No folder at or below a path has a path that is too long. -/
def Followed (path : String) (tree : FileTree) : Prop :=
  ∀ names, tree.FolderAt names → Path.Fits (Path.below path names)

theorem followed_file (path content : String) : Followed path (file content) := by
  rintro (_ | ⟨name, names⟩) ⟨entries, hentries⟩ <;> cases hentries

theorem followed_folder {path : String} {entries : List (String × FileTree)}
    (hpath : Path.Fits path)
    (hentries : ∀ entry ∈ entries, Followed (Path.join path entry.1) entry.2) :
    Followed path (folder entries) := by
  rintro (_ | ⟨name, names⟩) ⟨inner, hinner⟩
  · exact hpath
  · rw [at?_folder_cons, Option.bind_eq_some_iff] at hinner
    obtain ⟨tree, htree, hinner⟩ := hinner
    obtain ⟨before, later, hsplit, -⟩ := List.lookup_eq_some_iff.1 htree
    exact hentries (name, tree) (by simp [hsplit]) names ⟨inner, hinner⟩

mutual

/-- The names that lead to the files, in the order in which these are listed. -/
def places : FileTree → List (List String)
  | file _ => [[]]
  | folder entries => placesOfEntries entries

def placesOfEntries : List (String × FileTree) → List (List String)
  | [] => []
  | (name, tree) :: entries => tree.places.map (name :: ·) ++ placesOfEntries entries

end

variable {path : String} {names : List String}

mutual

theorem mem_places_iff : ∀ (tree : FileTree), tree.WellNamed → ∀ names,
    names ∈ tree.places ↔ ∃ content, tree.at? names = some (file content)
  | file content, _, names => by
    cases names <;> simp [places, at?_nil, at?_file_cons]
  | folder entries, hnamed, names => by
    rw [places, mem_placesOfEntries_iff entries hnamed]

theorem mem_placesOfEntries_iff : ∀ (entries : List (String × FileTree)), WellNamedEntries entries →
    ∀ names, names ∈ placesOfEntries entries ↔
      ∃ content, (folder entries).at? names = some (file content)
  | [], _, names => by
    cases names <;> simp [placesOfEntries, at?_nil, at?_folder_cons]
  | (name, tree) :: entries, hnamed, names => by
    obtain ⟨-, hnone, htree, hentries⟩ := hnamed
    rw [placesOfEntries, List.mem_append, mem_placesOfEntries_iff entries hentries]
    cases names with
    | nil => simp [at?_nil]
    | cons first names =>
      rw [at?_folder_cons, at?_folder_cons, lookup_cons_eq_ite]
      by_cases h : first = name
      · subst h
        simp [hnone, mem_places_iff tree htree names]
      · simp [h, Ne.symm h]

end

mutual

theorem nodup_places : ∀ (tree : FileTree), tree.WellNamed → tree.places.Nodup
  | file _, _ => by simp [places]
  | folder entries, hnamed => nodup_placesOfEntries entries hnamed

theorem nodup_placesOfEntries : ∀ (entries : List (String × FileTree)), WellNamedEntries entries →
    (placesOfEntries entries).Nodup
  | [], _ => by simp [placesOfEntries]
  | (name, tree) :: entries, hnamed => by
    obtain ⟨-, hnone, htree, hentries⟩ := hnamed
    have hcons : Function.Injective (name :: · : List String → List String) :=
      fun _ _ h => (List.cons_eq_cons.1 h).2
    rw [placesOfEntries, List.nodup_append]
    refine ⟨List.Nodup.map hcons (nodup_places tree htree),
      nodup_placesOfEntries entries hentries, ?_⟩
    rintro _ hfirst _ hothers rfl
    obtain ⟨names, -, rfl⟩ := List.mem_map.1 hfirst
    -- An entry that comes later has another name.
    obtain ⟨content, hcontent⟩ := (mem_placesOfEntries_iff entries hentries _).1 hothers
    rw [at?_folder_cons, hnone] at hcontent
    cases hcontent

end

mutual

theorem isEntryName_of_mem_places : ∀ (tree : FileTree), tree.WellNamed →
    ∀ names ∈ tree.places, ∀ name ∈ names, IsEntryName name
  | file _, _, names, hnames, name, hname => by
    rw [places, List.mem_singleton] at hnames
    subst hnames
    cases hname
  | folder entries, hnamed, names, hnames, name, hname =>
    isEntryName_of_mem_placesOfEntries entries hnamed names hnames name hname

theorem isEntryName_of_mem_placesOfEntries : ∀ (entries : List (String × FileTree)),
    WellNamedEntries entries → ∀ names ∈ placesOfEntries entries, ∀ name ∈ names, IsEntryName name
  | [], _, names, hnames, _, _ => by cases hnames
  | (first, tree) :: entries, hnamed, names, hnames, name, hname => by
    obtain ⟨hfirst, -, htree, hentries⟩ := hnamed
    rw [placesOfEntries, List.mem_append] at hnames
    rcases hnames with hnames | hnames
    · obtain ⟨inner, hinner, rfl⟩ := List.mem_map.1 hnames
      rcases List.mem_cons.1 hname with rfl | hname
      · exact hfirst
      · exact isEntryName_of_mem_places tree htree inner hinner name hname
    · exact isEntryName_of_mem_placesOfEntries entries hentries names hnames name hname

end

mutual

/-- What is listed is the paths of the files, as long as the paths of the folders can be
    followed. -/
theorem listed_eq_map : ∀ (tree : FileTree) (path : String), tree.WellNamed → Followed path tree →
    tree.listed path = tree.places.map (Path.below path)
  | file _, path, _, _ => by simp [listed, places, Path.below]
  | folder entries, path, hnamed, hfollowed => by
    have hpath : Path.Fits path := hfollowed [] ⟨entries, rfl⟩
    rw [listed, if_pos hpath, places]
    exact listedEntries_eq_map entries path hnamed fun names _ => hfollowed names

theorem listedEntries_eq_map : ∀ (entries : List (String × FileTree)) (path : String),
    WellNamedEntries entries →
    (∀ names, names ≠ [] → (folder entries).FolderAt names → Path.Fits (Path.below path names)) →
    listedEntries path entries = (placesOfEntries entries).map (Path.below path)
  | [], _, _, _ => by simp [listedEntries, placesOfEntries]
  | (name, tree) :: entries, path, hnamed, hfollowed => by
    obtain ⟨-, hnone, htree, hentries⟩ := hnamed
    have hbelow : Path.below path ∘ (name :: ·) = Path.below (Path.join path name) := rfl
    have hfirst : Followed (Path.join path name) tree := fun names hfolder =>
      hfollowed (name :: names) (List.cons_ne_nil _ _) (by
        obtain ⟨inner, hinner⟩ := hfolder
        exact ⟨inner, by rw [at?_folder_cons, List.lookup_cons_self, Option.bind_some, hinner]⟩)
    rw [listedEntries, placesOfEntries, List.map_append, List.map_map, hbelow,
      listed_eq_map tree _ htree hfirst, listedEntries_eq_map entries path hentries]
    rintro (_ | ⟨other, names⟩) hne ⟨inner, hinner⟩
    · exact absurd rfl hne
    · refine hfollowed (other :: names) hne ⟨inner, ?_⟩
      have hother : other ≠ name := by
        rintro rfl
        rw [at?_folder_cons, hnone] at hinner
        cases hinner
      rw [at?_folder_cons, lookup_cons_eq_ite, if_neg hother]
      exact hinner

end

/-! ## The files that may hold criteria -/

/-- The names that lead to the files that may hold criteria, in their order. -/
def criteriaPlaces (tree : FileTree) (path : String) : List (List String) :=
  (tree.places.filter fun names => Path.isCriteriaFile (Path.below path names)).mergeSort
    fun a b => decide (a ≤ b)

variable {tree other : FileTree} {path : String}

theorem criteriaFiles_eq_map (hnamed : tree.WellNamed) (hfollowed : Followed path tree) :
    tree.criteriaFiles path = (tree.criteriaPlaces path).map (Path.below path) := by
  rw [criteriaFiles, listed_eq_map tree path hnamed hfollowed, List.filter_map, criteriaPlaces]
  refine (List.map_mergeSort fun a ha b hb => ?_).symm
  have hentries (names : List String) (h : names ∈ tree.places.filter
      (Path.isCriteriaFile ∘ Path.below path)) : ∀ name ∈ names, Disk.IsEntryName name :=
    isEntryName_of_mem_places tree hnamed names (List.mem_filter.1 h).1
  rw [Bool.eq_iff_iff, Path.le_below_iff (hentries a ha) (hentries b hb), decide_eq_true_iff]

theorem pairwise_criteriaPlaces (hnamed : tree.WellNamed) :
    (tree.criteriaPlaces path).Pairwise (· < ·) := by
  have hnodup : (tree.criteriaPlaces path).Nodup :=
    (List.mergeSort_perm _ _).nodup_iff.2 ((nodup_places tree hnamed).filter _)
  have hsorted : (tree.criteriaPlaces path).Pairwise fun a b => decide (a ≤ b) = true :=
    List.pairwise_mergeSort (by simpa using fun a b c => le_trans)
      (by simpa using fun a b => le_total a b) _
  refine (hsorted.and hnodup).imp fun h => ?_
  exact lt_of_le_of_ne (by simpa using h.1) h.2

theorem mem_criteriaPlaces_iff (hnamed : tree.WellNamed) (hfolder : tree.isFolder = true)
    {names : List String} : names ∈ tree.criteriaPlaces path ↔
      (∃ content, tree.at? names = some (file content)) ∧ Path.NamesCriteria names := by
  rw [criteriaPlaces, List.mem_mergeSort, List.mem_filter]
  constructor
  · rintro ⟨hplace, hcriteria⟩
    have hcontent := (mem_places_iff tree hnamed names).1 hplace
    have hne : names ≠ [] := by
      rintro rfl
      obtain ⟨content, hcontent⟩ := hcontent
      cases hcontent
      cases hfolder
    exact ⟨hcontent, (Path.isCriteriaFile_below_iff hne
      (isEntryName_of_mem_places tree hnamed names hplace)).1 hcriteria⟩
  · rintro ⟨hcontent, hcriteria⟩
    have hplace := (mem_places_iff tree hnamed names).2 hcontent
    have hne : names ≠ [] := by
      rintro rfl
      obtain ⟨front, stem, ending, -, -, hnames⟩ := hcriteria
      simp at hnames
    exact ⟨hplace, (Path.isCriteriaFile_below_iff hne
      (isEntryName_of_mem_places tree hnamed names hplace)).2 hcriteria⟩

/-- The order in which the entries of the folders are listed does not matter, and neither do empty
    folders. -/
theorem criteriaPlaces_eq (hnamed : tree.WellNamed) (hother : other.WellNamed)
    (hsame : ∀ names, (∃ content, other.at? names = some (file content)) ↔
      ∃ content, tree.at? names = some (file content)) :
    other.criteriaPlaces path = tree.criteriaPlaces path := by
  have hmem (names : List String) :
      names ∈ other.criteriaPlaces path ↔ names ∈ tree.criteriaPlaces path := by
    rw [criteriaPlaces, criteriaPlaces, List.mem_mergeSort, List.mem_mergeSort, List.mem_filter,
      List.mem_filter, mem_places_iff other hother, mem_places_iff tree hnamed, hsame]
  have hlt : (tree.criteriaPlaces path).Pairwise (· < ·) := pairwise_criteriaPlaces hnamed
  have hlt' : (other.criteriaPlaces path).Pairwise (· < ·) := pairwise_criteriaPlaces hother
  have hperm := (List.perm_ext_iff_of_nodup (hlt'.imp ne_of_lt) (hlt.imp ne_of_lt)).2 hmem
  exact hperm.eq_of_pairwise (fun a b _ _ hab hba => absurd hab (lt_asymm hba)) hlt' hlt

end CourseAdmission.FileTree
