import CourseAdmission.Proofs.Binary64.KeepsSign
import CourseAdmission.Proofs.Results.Mean
import Mathlib.Algebra.Order.BigOperators.Group.List

/-!
How the numbers of a type grow with the results.

If no result gets worse, neither the mean of the percentages nor the share of passed results goes
down: the exact sum grows, and each of the operations behind it respects the order.
-/

namespace CourseAdmission

open Binary64 ExactSum

/-- The exact sum of the distances of the finite percentages from zero, in units. -/
def absoluteSum (results : List AssignmentResult) : Nat :=
  magnitude (((results.map (·.percent)).filter isFinite).map signedUnits)

theorem magnitude_le_of_sublist {values values' : List Int} (h : values.Sublist values') :
    magnitude values ≤ magnitude values' :=
  (h.map Int.natAbs).sum_le_sum fun _ _ => Nat.zero_le _

theorem absoluteSum_matching_le (results : List AssignmentResult) (type : AssignmentType) :
    absoluteSum (TypeAggregate.matching results type) ≤ absoluteSum results :=
  magnitude_le_of_sublist (((List.filter_sublist.map _).filter _).map _)

theorem length_matching_lt {results : List AssignmentResult}
    (hlength : results.length < Word.limit 64) (type : AssignmentType) :
    (TypeAggregate.matching results type).length < Word.limit 64 :=
  (List.length_filter_le _ _).trans_lt hlength

theorem absoluteSum_eq {results : List AssignmentResult}
    (hfinite : ∀ r ∈ results, r.percent.isFinite) :
    absoluteSum results = magnitude ((results.map (·.percent)).map signedUnits) := by
  rw [absoluteSum, List.filter_eq_self.2]
  intro percent hpercent
  obtain ⟨r, hr, rfl⟩ := List.mem_map.1 hpercent
  exact hfinite r hr

/-- A count is finite and not below one. -/
theorem one_le_count {n : Nat} (hpos : 0 < n) (hn : n < Word.limit 64) :
    (ofNat n).isFinite ∧ (unitsPerOne : Int) ≤ (ofNat n).signedUnits := by
  obtain ⟨hfinite, hsign, -⟩ := ofNat_count_spec hn
  rw [signedUnits_eq, hsign, if_neg Bool.false_ne_true]
  exact ⟨hfinite, by exact_mod_cast unitsPerOne_le_units_ofNat hpos hn⟩

/-- Dividing by a count respects the order. -/
theorem increasing_div_count {n : Nat} (hpos : 0 < n) (hn : n < Word.limit 64) :
    Increasing (· / ofNat n) := by
  obtain ⟨hfinite, hle⟩ := one_le_count hpos hn
  have hone := unitsPerOne_pos
  exact (keepsSign_div hfinite (by omega)).increasing

theorem increasing_mul_hundred : Increasing (· * 100) := by
  obtain ⟨hfinite, hvalue⟩ := ofNat_spec (n := 100) (by decide)
  have hone := unitsPerOne_pos
  exact (keepsSign_mul hfinite (by rw [hvalue]; omega)).increasing

variable {part part' whole : Nat}

/-- The part of a whole in percent is finite as long as the whole can be counted. -/
theorem isFinite_percentOf (hle : part ≤ whole) (hwhole : whole < Word.limit 64) :
    (percentOf part whole).isFinite = true := by
  rw [percentOf]
  split
  case isTrue => exact isFinite_zero
  case isFalse hne =>
    have hlow := increasing_mul_hundred (ofNat_le_ofNat (Nat.zero_le part))
    have hhigh := increasing_mul_hundred (ofNat_le_ofNat (hle.trans hwhole.le))
    have hscaled := isFinite_of_le_of_le (by decide +kernel) (by decide +kernel) hlow hhigh
    obtain ⟨hcount, hone⟩ := one_le_count (Nat.pos_of_ne_zero hne) hwhole
    exact isFinite_div hscaled hcount hone

theorem percentOf_le_percentOf (hle : part ≤ part') (hwhole : whole < Word.limit 64) :
    percentOf part whole ≤ percentOf part' whole := by
  rw [percentOf, percentOf]
  split
  case isTrue => exact (le_iff isFinite_zero isFinite_zero).2 le_rfl
  case isFalse hne =>
    have hscaled := increasing_mul_hundred (ofNat_le_ofNat hle)
    exact increasing_div_count (Nat.pos_of_ne_zero hne) hwhole hscaled

theorem percentOf_nonneg (part : Nat) (hwhole : whole < Word.limit 64) :
    0 ≤ percentOf part whole := by
  rw [percentOf]
  split
  case isTrue => exact (le_iff isFinite_zero isFinite_zero).2 le_rfl
  case isFalse hne =>
    have hzero : 0 ≤ ofNat 0 * 100 := by decide +kernel
    have hscaled := increasing_mul_hundred (ofNat_le_ofNat (Nat.zero_le part))
    obtain ⟨hcount, hone⟩ := one_le_count (Nat.pos_of_ne_zero hne) hwhole
    have hpositive := unitsPerOne_pos
    exact (keepsSign_div hcount (by omega)).nonneg (Binary64.le_trans hzero hscaled)

/-- The mean of finite numbers does not go down when they grow. -/
theorem TypeAggregate.mean_le_mean {percents percents' : List Binary64}
    (hle : List.Forall₂ (· ≤ ·) percents percents') (hfinite : ∀ p ∈ percents, p.isFinite)
    (hfinite' : ∀ p ∈ percents', p.isFinite)
    (hroom : 2 * magnitude (percents.map signedUnits) < unitLimit)
    (hroom' : 2 * magnitude (percents'.map signedUnits) < unitLimit)
    (hlength : percents.length < Word.limit 64) : mean percents ≤ mean percents' := by
  have hempty : percents.isEmpty = percents'.isEmpty := by
    cases hle <;> rfl
  rw [mean, mean, ← hempty, ← hle.length_eq]
  split
  case isTrue => exact (le_iff isFinite_zero isFinite_zero).2 le_rfl
  case isFalse hne =>
    obtain ⟨htotal, hvalue⟩ := (holds_ofList hfinite hroom).total hroom
    obtain ⟨htotal', hvalue'⟩ := (holds_ofList hfinite' hroom').total hroom'
    have hunits : List.Forall₂ (· ≤ ·) (percents.map signedUnits) (percents'.map signedUnits) := by
      rw [List.forall₂_map_left_iff, List.forall₂_map_right_iff, List.forall₂_iff_zip]
      refine ⟨hle.length_eq, fun {p p'} hmem => ?_⟩
      obtain ⟨hp, hp'⟩ := List.of_mem_zip hmem
      exact (le_iff (hfinite p hp) (hfinite' p' hp')).1 ((List.forall₂_iff_zip.1 hle).2 hmem)
    have hsum := roundInt_le_roundInt hunits.sum_le_sum
    rw [← hvalue, ← hvalue', ← le_iff htotal htotal'] at hsum
    have hpos : 0 < percents.length := List.length_pos_iff.2 (by simpa using hne)
    exact increasing_div_count hpos hlength hsum

end CourseAdmission
