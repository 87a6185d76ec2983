import CourseAdmission.Results.Basic
import Mathlib.Data.List.Forall2

/-!
The assignment types, and how their tags may be spelled.

Blanks at the ends of a text and the case of its ASCII letters make no difference, and nothing else
is the tag of a type.
-/

namespace CourseAdmission

theorem AssignmentType.mem_all (type : AssignmentType) : type ∈ all := by
  cases type <;> decide

/-! Blanks at the ends of a text -/

namespace Text

theorem dropBlanks_append {blanks cs : List Char} (hblanks : ∀ c ∈ blanks, isBlank c = true) :
    dropBlanks (blanks ++ cs) = dropBlanks cs := by
  induction blanks with
  | nil => rfl
  | cons c blanks ih =>
    rw [List.forall_mem_cons] at hblanks
    rw [List.cons_append, dropBlanks, List.dropWhile_cons_of_pos hblanks.1]
    exact ih hblanks.2

theorem dropBlanks_of_head {c : Char} {cs : List Char} (hc : isBlank c = false) :
    dropBlanks (c :: cs) = c :: cs := by
  rw [dropBlanks, List.dropWhile_cons_of_neg (by simp [hc])]

/-- The blanks that are dropped stand before the rest. -/
theorem exists_eq_append_dropBlanks (cs : List Char) :
    ∃ blanks, cs = blanks ++ dropBlanks cs ∧ ∀ c ∈ blanks, isBlank c = true :=
  ⟨cs.takeWhile isBlank, List.takeWhile_append_dropWhile.symm,
    fun _ hc => (List.all_eq_true.1 (List.all_takeWhile ..)) _ hc⟩

/-- What stands between blanks, and has none at its own ends, is the text without blanks. -/
theorem trim_ofList {before inner after : List Char} (hbefore : ∀ c ∈ before, isBlank c = true)
    (hafter : ∀ c ∈ after, isBlank c = true) (hinner : ∀ c ∈ inner, isBlank c = false)
    (hsome : inner ≠ []) :
    trim (String.ofList (before ++ (inner ++ after))) = String.ofList inner := by
  have hends {cs : List Char} (rest : List Char) (hcs : ∀ c ∈ cs, isBlank c = false)
      (hne : cs ≠ []) :
      dropBlanks (cs ++ rest) = cs ++ rest := by
    cases cs with
    | nil => exact absurd rfl hne
    | cons c cs => exact dropBlanks_of_head (hcs c (by simp))
  have hback : dropBlanks (after.reverse ++ inner.reverse) = inner.reverse := by
    rw [dropBlanks_append (by simpa using hafter)]
    have hreverse : dropBlanks (inner.reverse ++ []) = inner.reverse ++ [] :=
      hends [] (by simpa using hinner) (by simpa using hsome)
    rwa [List.append_nil] at hreverse
  rw [trim, String.toList_ofList, dropBlanks_append hbefore, hends _ hinner hsome,
    List.reverse_append, hback, List.reverse_reverse]

end Text

namespace AssignmentType

/-- The text is the tag of the type between blanks, its letters in either case. -/
def Spells (type : AssignmentType) (text : String) : Prop :=
  ∃ before letters after, text = String.ofList (before ++ (letters ++ after)) ∧
    (∀ c ∈ before, Text.isBlank c = true) ∧ (∀ c ∈ after, Text.isBlank c = true) ∧
    List.Forall₂ (fun c capital => c = capital ∨ c = capital.toLower) letters type.tag.toList

/-- A character is a letter's capital, or that capital in lower case. -/
theorem eq_toUpper_or (c : Char) : c = c.toUpper ∨ c = c.toUpper.toLower := by
  unfold Char.toUpper
  split
  case isFalse => exact .inl rfl
  case isTrue h =>
    right
    have hlow : 97 ≤ c.val.toNat := UInt32.le_iff_toNat_le.1 h.1
    have hhigh : c.val.toNat ≤ 122 := UInt32.le_iff_toNat_le.1 h.2
    have hup : (c.val + ('A'.val - 'a'.val)).toNat = c.val.toNat - 32 := by
      have hcast : ('A'.val - 'a'.val).toNat = 4294967264 := rfl
      rw [UInt32.toNat_add, hcast]
      omega
    refine ((dif_pos ?_).trans ?_).symm
    · have hfirst : 'A'.val.toNat = 65 := rfl
      have hlast : 'Z'.val.toNat = 90 := rfl
      rw [ge_iff_le, UInt32.le_iff_toNat_le, UInt32.le_iff_toNat_le, hup, hfirst, hlast]
      omega
    · apply Char.ext
      have hcast : ('a'.val - 'A'.val).toNat = 32 := rfl
      rw [← UInt32.toNat_inj, UInt32.toNat_add, hup, hcast]
      omega

/-- A capital that is not blank in either case. -/
def IsCapital (c : Char) : Prop :=
  c.toUpper = c ∧ c.toLower.toUpper = c ∧ Text.isBlank c = false ∧ Text.isBlank c.toLower = false

instance (c : Char) : Decidable (IsCapital c) := inferInstanceAs (Decidable (_ ∧ _))

theorem isCapital_of_mem_tag (type : AssignmentType) : ∀ c ∈ type.tag.toList, IsCapital c := by
  have hall : type.tag.toList.all (fun c => decide (IsCapital c)) = true := by
    cases type <;> decide
  exact fun c hc => of_decide_eq_true (List.all_eq_true.1 hall c hc)

/-- Letters in either case have their capitals, and none of them is blank. -/
theorem map_toUpper_of_forall₂ {letters capitals : List Char}
    (hletters : List.Forall₂ (fun c capital => c = capital ∨ c = capital.toLower) letters capitals)
    (hcapitals : ∀ c ∈ capitals, IsCapital c) :
    letters.map Char.toUpper = capitals ∧ ∀ c ∈ letters, Text.isBlank c = false := by
  induction hletters with
  | nil => exact ⟨rfl, by simp⟩
  | @cons c capital letters capitals hc _ ih =>
    obtain ⟨⟨hupper, hlower, hblank, hblankLower⟩, hrest⟩ := List.forall_mem_cons.1 hcapitals
    obtain ⟨hmap, hnone⟩ := ih hrest
    rw [List.map_cons, hmap, List.forall_mem_cons]
    rcases hc with rfl | rfl
    · exact ⟨by rw [hupper], hblank, hnone⟩
    · exact ⟨by rw [hlower], hblankLower, hnone⟩

theorem ofText?_eq_some_iff_normalTag {text : String} {type : AssignmentType} :
    ofText? text = some type ↔ normalTag text = type.tag := by
  constructor
  · intro h
    exact (eq_of_beq (List.find?_some h :)).symm
  · intro h
    unfold ofText?
    rw [h]
    cases type <;> decide

/-- A text names a type exactly if it spells its tag. -/
theorem ofText?_eq_some_iff {text : String} {type : AssignmentType} :
    ofText? text = some type ↔ type.Spells text := by
  rw [ofText?_eq_some_iff_normalTag, normalTag]
  constructor
  · intro htag
    obtain ⟨before, hbefore, hblanksBefore⟩ := Text.exists_eq_append_dropBlanks text.toList
    obtain ⟨after, hafter, hblanksAfter⟩ :=
      Text.exists_eq_append_dropBlanks (Text.dropBlanks text.toList).reverse
    have hinner : (Text.trim text).toList =
        (Text.dropBlanks (Text.dropBlanks text.toList).reverse).reverse := String.toList_ofList
    refine ⟨before, (Text.trim text).toList, after.reverse, ?_, hblanksBefore,
      by simpa using hblanksAfter, ?_⟩
    · rw [hinner, ← List.reverse_append, ← hafter, List.reverse_reverse, ← hbefore,
        String.ofList_toList]
    · rw [← htag, String.toList_map, List.forall₂_map_right_iff]
      exact List.forall₂_same.2 fun c _ => eq_toUpper_or c
  · rintro ⟨before, letters, after, rfl, hbefore, hafter, hletters⟩
    obtain ⟨hcapitals, hblank⟩ := map_toUpper_of_forall₂ hletters (isCapital_of_mem_tag type)
    have hsome : letters ≠ [] := by
      rintro rfl
      cases type <;> exact absurd hcapitals (by decide)
    rw [Text.trim_ofList hbefore hafter hblank hsome, ← String.toList_inj, String.toList_map,
      String.toList_ofList, hcapitals]

end AssignmentType

end CourseAdmission
