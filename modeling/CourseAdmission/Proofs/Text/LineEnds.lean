import Mathlib.Algebra.Ring.Nat
import CourseAdmission.Proofs.Text.Lacks

/-!
How many line ends stand in a text.
-/

namespace CourseAdmission.Text

/-- The number of line ends, which is the number of lines if every line has its end. -/
def lineEnds (text : String) : Nat := text.toList.count '\n'

theorem Lacks.lineEnds_eq_zero {chars : List Char} (hend : '\n' ∈ chars) {text : String}
    (h : Lacks chars text) : lineEnds text = 0 :=
  List.count_eq_zero.2 fun hmem => h '\n' hmem hend

@[simp]
theorem lineEnds_empty : lineEnds "" = 0 := rfl

@[simp]
theorem lineEnds_append (s t : String) : lineEnds (s ++ t) = lineEnds s + lineEnds t := by
  rw [lineEnds, String.toList_append, List.count_append, lineEnds, lineEnds]

theorem lineEnds_intercalate {separator : String} (hseparator : lineEnds separator = 0)
    (texts : List String) :
    lineEnds (separator.intercalate texts) = (texts.map lineEnds).sum := by
  induction texts with
  | nil => rfl
  | cons text texts ih =>
    cases texts with
    | nil => simp
    | cons next texts =>
      rw [String.intercalate_cons_cons, lineEnds_append, lineEnds_append, hseparator, ih]
      simp

@[simp]
theorem lineEnds_ofLines_nil : lineEnds (ofLines []) = 0 := rfl

@[simp]
theorem lineEnds_ofLines_cons (line : String) (lines : List String) :
    lineEnds (ofLines (line :: lines)) = lineEnds line + 1 + lineEnds (ofLines lines) := by
  have hend : lineEnds "\n" = 1 := rfl
  rw [ofLines, List.map_cons, String.join_cons, lineEnds_append, lineEnds_append, hend, ofLines]

@[simp]
theorem lineEnds_ofLines_append (lines others : List String) :
    lineEnds (ofLines (lines ++ others)) =
      lineEnds (ofLines lines) + lineEnds (ofLines others) := by
  rw [ofLines, List.map_append, String.join_append, lineEnds_append, ofLines, ofLines]

/-- There is a line for each of the given ones, and another for each line end inside them. -/
theorem lineEnds_ofLines (lines : List String) :
    lineEnds (ofLines lines) = lines.length + (lines.map lineEnds).sum := by
  induction lines with
  | nil => rfl
  | cons line lines ih =>
    rw [lineEnds_ofLines_cons, ih, List.map_cons, List.sum_cons, List.length_cons]
    omega

/-- There are no more lines than the given ones exactly if none of them has a line end inside. -/
theorem lineEnds_ofLines_eq_length_iff {lines : List String} :
    lineEnds (ofLines lines) = lines.length ↔ ∀ line ∈ lines, lineEnds line = 0 := by
  rw [lineEnds_ofLines, Nat.add_eq_left, List.sum_eq_zero_iff_forall_eq_nat, List.forall_mem_map]

/-- Lines that are left out if there is nothing to list. -/
theorem lineEnds_unlessEmpty {α : Type} (items : List α) (lines : List String) :
    lineEnds (ofLines (if items.isEmpty then [] else lines)) =
      if items.length = 0 then 0 else lineEnds (ofLines lines) := by
  cases items <;> rfl

end CourseAdmission.Text
