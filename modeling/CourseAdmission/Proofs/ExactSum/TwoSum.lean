import CourseAdmission.Proofs.Binary64.Sum
import CourseAdmission.Results.ExactSum

/-!
What the rounding of a sum of two doubles loses is a double again, and is computed without error.
-/

namespace CourseAdmission

namespace Binary64

variable {x y : Int}

/-- Rounding a sum moves it by no more than either summand. -/
theorem natAbs_sub_roundInt_add_le (hx : OnGrid x.natAbs) (hy : OnGrid y.natAbs) :
    (x + y - roundInt (x + y)).natAbs ≤ x.natAbs ∧
      (x + y - roundInt (x + y)).natAbs ≤ y.natAbs := by
  have hnearx := roundInt_nearest (x + y) hx
  have hneary := roundInt_nearest (x + y) hy
  omega

/-- The last digit of the smaller summand. -/
theorem spacing_dvd_add (hx : OnGrid x.natAbs) (hy : OnGrid y.natAbs)
    (hle : y.natAbs ≤ x.natAbs) :
    (2 ^ (y.natAbs.log2 - 52) : Int) ∣ x ∧ (2 ^ (y.natAbs.log2 - 52) : Int) ∣ y := by
  rw [two_pow_dvd_iff, two_pow_dvd_iff]
  exact ⟨onGrid_dvd_of_le hx hle, hy⟩

theorem onGrid_sub_roundInt_add (hx : OnGrid x.natAbs) (hy : OnGrid y.natAbs)
    (hle : y.natAbs ≤ x.natAbs) : OnGrid (x + y - roundInt (x + y)).natAbs := by
  obtain ⟨hdvdx, hdvdy⟩ := spacing_dvd_add hx hy hle
  have hdvd := Int.dvd_add hdvdx hdvdy
  have hsmall := (natAbs_sub_roundInt_add_le hx hy).2
  have hwidth := lt_mul_spacing y.natAbs
  apply onGrid_of_dvd (two_pow_dvd_iff.1 (Int.dvd_sub hdvd (two_pow_dvd_roundInt hdvd)))
  exact hsmall.trans hwidth.le

/-- The rounded sum differs from the greater summand by a number on the grid. -/
theorem onGrid_roundInt_add_sub (hx : OnGrid x.natAbs) (hy : OnGrid y.natAbs)
    (hle : y.natAbs ≤ x.natAbs) : OnGrid (roundInt (x + y) - x).natAbs := by
  by_cases hgrid : OnGrid (x + y).natAbs
  · rwa [roundInt_of_onGrid hgrid, add_sub_cancel_left]
  obtain ⟨hdvdx, hdvdy⟩ := spacing_dvd_add hx hy hle
  have hlt := pow_lt_spacing (two_pow_dvd_iff.1 (Int.dvd_add hdvdx hdvdy)) hgrid
  rw [spacing_eq, Nat.pow_lt_pow_iff_right (by decide)] at hlt
  obtain ⟨i, hi⟩ : ∃ i, (x + y).natAbs.log2 - 52 = i + 1 :=
    ⟨_, (Nat.sub_add_cancel (by omega)).symm⟩
  -- the sum has at most one binary digit more than `x`, so `2 ^ i` divides both
  have hlog : (x + y).natAbs.log2 ≤ x.natAbs.log2 + 1 := by
    have hx0 : x.natAbs ≠ 0 := by
      intro hzero
      have : x + y = 0 := by omega
      simp [this] at hi
    rw [← Nat.log2_two_mul hx0]
    exact log2_le_log2 (by omega)
  have hdvd : 2 ^ i ∣ (roundInt (x + y) - x).natAbs := by
    rw [← two_pow_dvd_iff]
    apply Int.dvd_sub
    · rw [two_pow_dvd_iff, natAbs_roundInt]
      have hspacing := spacing_dvd_roundUnits (x + y).natAbs 1
      rw [Nat.div_one, spacing_eq, hi] at hspacing
      exact (Nat.pow_dvd_pow 2 (Nat.le_succ i)).trans hspacing
    · have hspacing : 2 ^ i ∣ spacing x.natAbs := by
        rw [spacing_eq]
        exact Nat.pow_dvd_pow 2 (by omega)
      exact two_pow_dvd_iff.2 (hspacing.trans hx)
  apply onGrid_of_dvd hdvd
  have herror := two_mul_natAbs_sub_roundInt_le (x + y)
  rw [spacing_eq, hi, Nat.pow_succ] at herror
  have hwidth := lt_mul_spacing y.natAbs
  have hpow : spacing y.natAbs ≤ 2 ^ i := by
    rw [spacing_eq]
    exact Nat.pow_le_pow_right (by decide) (by omega)
  have hscaled := Nat.mul_le_mul_left significandLimit hpow
  by_contra hlarge
  have := add_le_of_dvd_of_lt (Nat.dvd_mul_left (2 ^ i) significandLimit) hdvd
    (Nat.not_le.1 hlarge)
  omega

end Binary64

namespace ExactSum

open Binary64

/-- With the greater summand first, or with nothing there, the sum is rounded and the loss is
    exact. -/
theorem ordered_twoSum_spec {x y : Binary64} (hx : x.isFinite) (hy : y.isFinite)
    (hle : x.signedUnits = 0 ∨ y.signedUnits.natAbs ≤ x.signedUnits.natAbs)
    (hroom : 2 * y.signedUnits.natAbs ≤ unitLimit)
    (hsum : (roundInt (x.signedUnits + y.signedUnits)).natAbs < unitLimit) :
    (x + y).isFinite ∧ (x + y).signedUnits = roundInt (x.signedUnits + y.signedUnits) ∧
      (y - (x + y - x)).isFinite ∧ (y - (x + y - x)).signedUnits =
        x.signedUnits + y.signedUnits - roundInt (x.signedUnits + y.signedUnits) := by
  obtain ⟨hhigh, hvalue⟩ := add_spec hx hy hsum
  have hgridx := onGrid_signedUnits x
  have hgridy := onGrid_signedUnits y
  have hlimit := natAbs_signedUnits_lt x
  have hsmall := (natAbs_sub_roundInt_add_le hgridx hgridy).2
  have herror := two_mul_natAbs_sub_roundInt_le (x.signedUnits + y.signedUnits)
  obtain ⟨hloss, hback⟩ : OnGrid (x.signedUnits + y.signedUnits -
        roundInt (x.signedUnits + y.signedUnits)).natAbs ∧
      OnGrid (roundInt (x.signedUnits + y.signedUnits) - x.signedUnits).natAbs := by
    rcases hle with hzero | hle
    · rw [hzero, Int.zero_add, roundInt_of_onGrid hgridy, Int.sub_self, Int.sub_zero]
      exact ⟨onGrid_of_le (Nat.zero_le _), hgridy⟩
    · exact ⟨onGrid_sub_roundInt_add hgridx hgridy hle, onGrid_roundInt_add_sub hgridx hgridy hle⟩
  have hbound : (roundInt (x.signedUnits + y.signedUnits) - x.signedUnits).natAbs < unitLimit := by
    rcases Nat.lt_or_ge 1 (spacing (x.signedUnits + y.signedUnits).natAbs) with hwide | hnarrow
    · have hdigits := mul_spacing_le hwide
      omega
    · omega
  obtain ⟨hmoved, hmovedValue⟩ := sub_exact hhigh hx (by rwa [hvalue]) (by rwa [hvalue])
  rw [hvalue] at hmovedValue
  have hrest : y.signedUnits - (roundInt (x.signedUnits + y.signedUnits) - x.signedUnits) =
      x.signedUnits + y.signedUnits - roundInt (x.signedUnits + y.signedUnits) := by omega
  obtain ⟨hlow, hlowValue⟩ := sub_exact hy hmoved (by rwa [hmovedValue, hrest])
    (by rw [hmovedValue, hrest]; omega)
  rw [hmovedValue, hrest] at hlowValue
  exact ⟨hhigh, hvalue, hlow, hlowValue⟩

/-- The sum of two doubles is rounded, and what that lost is exact. One summand is at most half the
    greatest power of two beyond the finite numbers. -/
theorem twoSum_spec {x y : Binary64} (hx : x.isFinite) (hy : y.isFinite)
    (hroom : 2 * x.signedUnits.natAbs ≤ unitLimit ∨ 2 * y.signedUnits.natAbs ≤ unitLimit)
    (hsum : (roundInt (x.signedUnits + y.signedUnits)).natAbs < unitLimit) :
    (twoSum x y).1.isFinite ∧
      (twoSum x y).1.signedUnits = roundInt (x.signedUnits + y.signedUnits) ∧
      (twoSum x y).2.isFinite ∧ (twoSum x y).2.signedUnits =
        x.signedUnits + y.signedUnits - roundInt (x.signedUnits + y.signedUnits) := by
  have horder := abs_lt_abs_iff hx hy
  by_cases hlt : x.abs < y.abs
  · have hless := horder.1 hlt
    have hswap := ordered_twoSum_spec hy hx (.inr hless.le) (by omega) (by rwa [Int.add_comm])
    rw [Int.add_comm y.signedUnits x.signedUnits] at hswap
    simpa only [twoSum, if_pos hlt] using hswap
  · have hless := Nat.not_lt.1 (mt horder.2 hlt)
    have hkeep := ordered_twoSum_spec hx hy (.inr hless) (by omega) hsum
    simpa only [twoSum, if_neg hlt] using hkeep

end ExactSum

end CourseAdmission
