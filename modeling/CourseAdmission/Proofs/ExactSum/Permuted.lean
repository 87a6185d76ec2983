import CourseAdmission.Proofs.Binary64.Order
import CourseAdmission.Proofs.ExactSum.Total
import Mathlib.Algebra.BigOperators.Group.List.Basic

/-!
The order of the values does not matter to the total.

Finite values and others are summed up apart. The partials hold the exact sum of the finite ones
after every value, whatever the order, and sums of infinities and undefined values commute.
-/

namespace CourseAdmission.ExactSum

open Binary64

/-- The sum of the values that are no finite numbers. -/
def nonFiniteSum (values : List Binary64) : Binary64 :=
  (values.filter fun v => !v.isFinite).foldl (· + ·) .zero

/-- Finite values go into the partials and others into their own sum. -/
theorem foldl_add_eq (sum : ExactSum) (values : List Binary64) :
    values.foldl add sum =
      ⟨(values.filter isFinite).foldl (fun partials v => absorb v partials) sum.partials,
        (values.filter fun v => !v.isFinite).foldl (· + ·) sum.nonFinite⟩ := by
  induction values generalizing sum with
  | nil => rfl
  | cons value values ih =>
    rw [List.foldl_cons, ih, add_eq]
    by_cases hfinite : value.isFinite = true <;> simp [hfinite]

theorem ofList_eq (values : List Binary64) :
    ofList values = ⟨(ofList (values.filter isFinite)).partials, nonFiniteSum values⟩ := by
  rw [ofList, ofList, foldl_add_eq, foldl_add_eq, List.filter_filter]
  simp only [Bool.and_self, empty, nonFiniteSum]

/-- Without a sum of other values the total is that of the finite ones. -/
theorem total_ofList (values : List Binary64) :
    (ofList values).total = if nonFiniteSum values == 0 then
      (ofList (values.filter isFinite)).total else nonFiniteSum values := by
  have hfinite : nonFiniteSum (values.filter isFinite) = .zero := by
    rw [nonFiniteSum, List.filter_filter, List.filter_eq_nil_iff.2 (by simp), List.foldl_nil]
  rw [ofList_eq values, total]
  split
  case isTrue =>
    rw [ofList_eq (values.filter isFinite), List.filter_filter, hfinite]
    simp only [Bool.and_self, total, zero_beq_zero, if_true]
  case isFalse => rfl

theorem add_nan (x : Binary64) : x + .nan = .nan := by
  change Binary64.add x .nan = .nan
  cases x <;> rfl

theorem nan_add (x : Binary64) : .nan + x = .nan := rfl

/-- Infinities and undefined values can be added in any order. -/
theorem add_right_comm_of_not_isFinite {x y : Binary64} (hx : ¬x.isFinite = true)
    (hy : ¬y.isFinite = true) (sum : Binary64) : sum + x + y = sum + y + x := by
  cases x with
  | finite => exact absurd rfl hx
  | nan => rw [add_nan, nan_add, add_nan]
  | infinite a =>
    cases y with
    | finite => exact absurd rfl hy
    | nan => rw [add_nan, add_nan, nan_add]
    | infinite b =>
      change Binary64.add (Binary64.add _ _) _ = Binary64.add (Binary64.add _ _) _
      cases sum with
      | nan => rfl
      | infinite c => cases a <;> cases b <;> cases c <;> rfl
      | finite c => cases a <;> cases b <;> rfl

theorem nonFiniteSum_eq_of_perm {values values' : List Binary64} (h : values.Perm values') :
    nonFiniteSum values = nonFiniteSum values' := by
  rw [nonFiniteSum, nonFiniteSum]
  apply (h.filter _).foldl_eq'
  intro x hx y hy sum
  exact add_right_comm_of_not_isFinite (by simpa using (List.mem_filter.1 hx).2)
    (by simpa using (List.mem_filter.1 hy).2) sum

/-- The total does not depend on the order of the values, up to the sign of a zero. -/
theorem alike_total_of_perm {values values' : List Binary64} (h : values.Perm values')
    (hroom : 2 * magnitude ((values.filter isFinite).map signedUnits) < unitLimit) :
    Alike (ofList values).total (ofList values').total := by
  have hfinite := h.filter isFinite
  have hunits := hfinite.map signedUnits
  have hmagnitude := (hunits.map Int.natAbs).sum_eq
  rw [← magnitude, ← magnitude] at hmagnitude
  have hroom' : 2 * magnitude ((values'.filter isFinite).map signedUnits) < unitLimit := by omega
  rw [total_ofList values, total_ofList values', nonFiniteSum_eq_of_perm h]
  split
  case isTrue =>
    obtain ⟨htotal, hvalue⟩ :=
      (holds_ofList (fun v hv => (List.mem_filter.1 hv).2) hroom).total hroom
    obtain ⟨htotal', hvalue'⟩ :=
      (holds_ofList (fun v hv => (List.mem_filter.1 hv).2) hroom').total hroom'
    right
    rw [beq_iff htotal htotal', hvalue, hvalue', hunits.sum_eq]
  case isFalse => exact .refl _

end CourseAdmission.ExactSum
