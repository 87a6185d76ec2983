import CourseAdmission.Proofs.Files.Disk
import Mathlib.Data.List.Lex
import Mathlib.Data.String.Basic

/-!
The paths of what is below a folder.

Such a path has the components of the folder's path and then the names that lead there. So the order
of these paths is that of the rows of names, and the ending of a file is that of its last name.
-/

namespace CourseAdmission

/-! ## The components of a path -/

namespace Path

open Disk (IsEntryName)

/-- The path that names lead to from a folder. -/
def below (path : String) (names : List String) : String := names.foldl join path

variable {path folder name : String} {first : String} {others names : List String}

/-- The texts between the slashes make up the path. -/
theorem intercalate_pieces (path : String) : "/".intercalate (pieces path) = path := by
  have hchars (cs : List Char) : ['/'].intercalate (pieces.splitSlashes cs) = cs := by
    induction cs with
    | nil => rfl
    | cons c cs ih =>
      obtain ⟨piece, others, hcs⟩ := List.exists_cons_of_ne_nil (splitSlashes_ne_nil cs)
      rw [hcs] at ih
      by_cases hslash : c = '/'
      · rw [hslash, splitSlashes_slash, hcs]
        simp [List.intercalate_cons_cons, ih]
      · rw [splitSlashes_of_ne hslash, hcs]
        cases others with
        | nil => simpa using ih
        | cons next others => simpa [List.intercalate_cons_cons] using ih
  rw [← String.toList_inj, String.toList_intercalate, pieces, List.map_map]
  simpa [Function.comp_def] using hchars path.toList

theorem components_of_pieces (h : pieces path = first :: others) : components path =
    (if first = "." then [.current]
      else if first = "" ∧ !others.isEmpty then [.root]
      else (component? first).toList) ++ others.filterMap component? := by
  rw [components, h]

/-- What joins the path of an entry to its folder. -/
theorem pieces_join (folder : String) {name : String} (hname : '/' ∉ name.toList) :
    (∃ front, pieces folder = front ++ [""] ∧ pieces (join folder name) = front ++ [name]) ∨
      (folder ≠ "" ∧ pieces (join folder name) = pieces folder ++ [name]) := by
  obtain ⟨front, hfront⟩ := exists_pieces_join folder
  have hempty : pieces (join folder "") = front ++ [""] := hfront "" (by simp)
  rw [join] at hempty
  split at hempty
  · rw [String.append_empty] at hempty
    exact .inl ⟨front, hempty, hfront name hname⟩
  case isFalse hother =>
    have hpieces : pieces (folder ++ "/" ++ "") = pieces folder ++ [""] := by
      rw [pieces, pieces]
      simp [splitSlashes_append_slash]
    rw [hpieces] at hempty
    rw [hfront name hname, List.append_cancel_right hempty]
    exact .inr ⟨fun hnone => hother (.inl hnone), rfl⟩

theorem ne_empty_or_ne_nil (hpath : path ≠ "") (h : pieces path = first :: others) :
    first ≠ "" ∨ others ≠ [] := by
  rw [pieces] at h
  cases hchars : path.toList with
  | nil => exact absurd (String.toList_eq_nil_iff.1 hchars) hpath
  | cons c cs =>
    rw [hchars] at h
    by_cases hslash : c = '/'
    · right
      rintro rfl
      rw [hslash, splitSlashes_slash] at h
      simp [splitSlashes_ne_nil cs] at h
    · left
      rintro rfl
      rw [splitSlashes_of_ne hslash] at h
      split at h
      · simp at h
      · simp at h

theorem component?_empty : component? "" = none := by simp [component?]

/-- The components of the path of an entry are those of its folder and then its name. -/
theorem components_join (hname : IsEntryName name) :
    components (join folder name) = components folder ++ [.name name] := by
  have hcurrent : name ≠ "." := by
    rintro rfl
    simp [IsEntryName, component?] at hname
  have hempty : name ≠ "" := by
    rintro rfl
    simp [IsEntryName, component?] at hname
  rcases pieces_join folder hname.1 with ⟨front, hfolder, hjoin⟩ | ⟨hfolder, hjoin⟩
  · cases front with
    | nil =>
      rw [components_of_pieces hfolder, components_of_pieces hjoin]
      simp [hempty, hcurrent, hname.2, component?_empty]
    | cons first front =>
      rw [components_of_pieces hfolder, components_of_pieces hjoin]
      simp [hname.2, component?_empty]
  · obtain ⟨first, others, hpieces⟩ := List.exists_cons_of_ne_nil (pieces_ne_nil folder)
    rw [hpieces, List.cons_append] at hjoin
    rw [components_of_pieces hpieces, components_of_pieces hjoin]
    rcases ne_empty_or_ne_nil hfolder hpieces with hfirst | hothers
    · simp [hfirst, hname.2]
    · simp [hothers, hname.2]

theorem components_below (hnames : ∀ name ∈ names, IsEntryName name) :
    components (below path names) = components path ++ names.map .name := by
  induction names generalizing path with
  | nil => simp [below]
  | cons name names ih =>
    rw [List.forall_mem_cons] at hnames
    have hrest := @ih (join path name) hnames.2
    rw [below] at hrest
    rw [below, List.foldl_cons, hrest, components_join hnames.1]
    simp

/-! ## The order of paths -/

theorem before_self (c : Component) : c.before c = false := by
  cases c <;> simp [Component.before]

theorem before_append_left (cs as bs : List Component) :
    before (cs ++ as) (cs ++ bs) = before as bs := by
  induction cs with
  | nil => rfl
  | cons c cs ih => simp [before, before_self, ih]

/-- Rows of names are ordered as lists. -/
theorem before_map_name (as bs : List String) :
    before (as.map .name) (bs.map .name) = true ↔ as < bs := by
  induction as generalizing bs with
  | nil => cases bs <;> simp [before]
  | cons a as ih =>
    cases bs with
    | nil => simp [before]
    | cons b bs => simp [before, Component.before, ih, List.cons_lt_cons_iff]

theorem le_below_iff {as bs : List String} (has : ∀ name ∈ as, IsEntryName name)
    (hbs : ∀ name ∈ bs, IsEntryName name) :
    le (below path as) (below path bs) = true ↔ as ≤ bs := by
  rw [le, components_below has, components_below hbs, before_append_left, Bool.not_eq_true',
    ← Bool.not_eq_true, before_map_name, not_lt]

/-! ## Endings -/

theorem nameExtension?_eq_some_iff {name ending : String} (hending : '.' ∉ ending.toList) :
    nameExtension? name = some ending ↔ ∃ stem, stem ≠ "" ∧ name = stem ++ "." ++ ending := by
  rw [nameExtension?]
  constructor
  · intro h
    split at h
    case h_1 c cs hdrop =>
      have htake := List.prefix_iff_eq_take.1
        (List.takeWhile_prefix (· != '.') (l := name.toList.reverse))
      have hsplit := List.take_append_drop
        (name.toList.reverse.takeWhile (· != '.')).length name.toList.reverse
      rw [hdrop, ← htake] at hsplit
      rw [Option.some_inj] at h
      refine ⟨String.ofList (c :: cs).reverse, by simp, ?_⟩
      rw [← String.toList_inj, ← List.reverse_inj, ← hsplit, ← h]
      simp
    case h_2 => cases h
  · rintro ⟨stem, hstem, rfl⟩
    have hreverse : (stem ++ "." ++ ending).toList.reverse =
        ending.toList.reverse ++ '.' :: stem.toList.reverse := by simp
    have htake : (ending.toList.reverse ++ '.' :: stem.toList.reverse).takeWhile (· != '.') =
        ending.toList.reverse := by
      have hall : ∀ c ∈ ending.toList.reverse, (c != '.') = true := by
        intro c hc
        rw [bne_iff_ne]
        rintro rfl
        exact hending (List.mem_reverse.1 hc)
      rw [List.takeWhile_append_of_pos hall]
      simp
    obtain ⟨c, cs, hcs⟩ := List.exists_cons_of_ne_nil
      (List.reverse_ne_nil_iff.2 (mt String.toList_eq_nil_iff.1 hstem))
    rw [hreverse, htake, List.drop_left, hcs]
    simp

/-- The last name has the ending of a file of criteria, with something in front of it. -/
def NamesCriteria (names : List String) : Prop :=
  ∃ front stem ending, stem ≠ "" ∧ ending ∈ ["json", "toml"] ∧
    names = front ++ [stem ++ "." ++ ending]

theorem isCriteriaFile_below_iff {path : String} {names : List String} (hne : names ≠ [])
    (hnames : ∀ name ∈ names, IsEntryName name) :
    isCriteriaFile (below path names) = true ↔ NamesCriteria names := by
  obtain ⟨front, last, rfl⟩ := names.eq_nil_or_concat.resolve_left hne
  have hfile : extension? (below path (front.concat last)) = nameExtension? last := by
    rw [extension?, fileName?, components_below hnames]
    simp
  have hcriteria : isCriteriaFile (below path (front.concat last)) = true ↔
      ∃ ending ∈ ["json", "toml"], nameExtension? last = some ending := by
    rw [isCriteriaFile, hfile]
    cases nameExtension? last <;> simp
  rw [hcriteria, NamesCriteria]
  constructor
  · rintro ⟨ending, hending, hlast⟩
    have hdot : '.' ∉ ending.toList := by
      revert ending
      simp
    obtain ⟨stem, hstem, rfl⟩ := (nameExtension?_eq_some_iff hdot).1 hlast
    exact ⟨front, stem, ending, hstem, hending, List.concat_eq_append⟩
  · rintro ⟨front', stem, ending, hstem, hending, hnames⟩
    have hdot : '.' ∉ ending.toList := by
      revert ending
      simp
    rw [List.concat_eq_append] at hnames
    obtain ⟨-, hlast⟩ := List.append_inj' hnames rfl
    rw [List.cons_eq_cons] at hlast
    exact ⟨ending, hending, (nameExtension?_eq_some_iff hdot).2 ⟨stem, hstem, hlast.1⟩⟩

end Path

end CourseAdmission
