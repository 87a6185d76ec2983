import CourseAdmission.Proofs.Binary64.Scale

/-!
How precise a rounded quotient is.

Rounding changes a quotient by at most one part in `2 ^ 53`, and it does not pass a number of few
binary digits. Operations that treat both signs alike commute with the change of sign.
-/

namespace CourseAdmission.Binary64

variable {x : Binary64}

/-- The error of rounding, relative to the quotient. -/
theorem roundUnits_relative {n d : Nat} (hd : 0 < d) (hn : 2 ^ 52 * d ≤ n) :
    2 ^ 53 * n ≤ 2 ^ 53 * (roundUnits n d * d) + n ∧
      2 ^ 53 * (roundUnits n d * d) ≤ 2 ^ 53 * n + n := by
  obtain ⟨hhigh, hlow, -⟩ := roundUnits_spec n hd
  have hwidth : 2 ^ 52 * (spacing (n / d) * d) ≤ n := by
    rw [← Nat.mul_assoc]
    refine (Nat.le_div_iff_mul_le hd).1 ?_
    rcases Nat.lt_or_ge 1 (spacing (n / d)) with hwide | hnarrow
    · exact mul_spacing_le hwide
    · exact (Nat.mul_le_mul_left _ hnarrow).trans ((Nat.le_div_iff_mul_le hd).2 (by omega))
  rw [Nat.add_mul, Nat.mul_assoc 2] at hhigh
  rw [Nat.mul_assoc 2] at hlow
  omega

/-- A whole number of units is rounded as precisely as any quotient. -/
theorem roundUnits_one_relative (n : Nat) :
    2 ^ 53 * n ≤ 2 ^ 53 * roundUnits n 1 + n ∧ 2 ^ 53 * roundUnits n 1 ≤ 2 ^ 53 * n + n := by
  rcases Nat.lt_or_ge n (2 ^ 52) with hsmall | hlarge
  · rw [roundUnits_one (onGrid_of_le (hsmall.le.trans (by decide)))]
    omega
  · simpa using roundUnits_relative Nat.one_pos (by simpa using hlarge)

/-- Fractions with a power of two below that fit into a significand are on the grid. -/
theorem exists_onGrid_fraction {a b : Nat} (ha : a ≤ significandLimit) (hb : b ≤ 100) :
    ∃ bound, OnGrid bound ∧ a * unitsPerOne = 2 ^ b * bound := by
  obtain ⟨k, hk, hone⟩ := unitsPerOne_eq_pow
  refine ⟨a * 2 ^ (k - b), onGrid_mul_pow ha _, ?_⟩
  rw [hone, Nat.mul_left_comm, ← Nat.pow_add, Nat.add_sub_cancel' (by omega)]

/-- Rounding does not go below a fraction that fits into a significand. -/
theorem le_roundUnits_of_fraction_le {n d a b : Nat} (hd : 0 < d) (ha : a ≤ significandLimit)
    (hb : b ≤ 100) (hle : a * unitsPerOne * d ≤ 2 ^ b * n) :
    a * unitsPerOne ≤ 2 ^ b * roundUnits n d := by
  obtain ⟨bound, hgrid, heq⟩ := exists_onGrid_fraction ha hb
  rw [heq, Nat.mul_assoc, Nat.mul_le_mul_left_iff (Nat.two_pow_pos b)] at hle
  rw [heq, Nat.mul_le_mul_left_iff (Nat.two_pow_pos b)]
  exact le_roundUnits_of_le hgrid hd hle

/-- Nor does it go above one. -/
theorem roundUnits_le_of_le_fraction {n d a b : Nat} (hd : 0 < d) (ha : a ≤ significandLimit)
    (hb : b ≤ 100) (hle : 2 ^ b * n ≤ a * unitsPerOne * d) :
    2 ^ b * roundUnits n d ≤ a * unitsPerOne := by
  obtain ⟨bound, hgrid, heq⟩ := exists_onGrid_fraction ha hb
  rw [heq, Nat.mul_assoc, Nat.mul_le_mul_left_iff (Nat.two_pow_pos b)] at hle
  rw [heq, Nat.mul_le_mul_left_iff (Nat.two_pow_pos b)]
  exact roundUnits_le_of_le hgrid hd hle

/-! The nearest whole number -/

theorem le_nearestTo_iff {n d m : Nat} (hd : 0 < d) :
    m ≤ nearestTo n d ↔ 2 * m * d ≤ 2 * n + d := by
  rw [nearestTo, Nat.le_div_iff_mul_le (by omega), Nat.mul_left_comm, ← Nat.mul_assoc]

theorem nearestTo_le_iff {n d m : Nat} (hd : 0 < d) :
    nearestTo n d ≤ m ↔ 2 * n < (2 * m + 1) * d := by
  rw [← Nat.not_lt, ← Nat.succ_le_iff, le_nearestTo_iff hd, Nat.not_le,
    show 2 * (m + 1) * d = (2 * m + 1) * d + d by ring]
  omega

/-! Signs -/

namespace KeepsSign

variable {f : Binary64 → Binary64} {numerator : Bool → Nat → Nat} {denominator : Nat}

/-- An operation that goes by the distance from zero only changes its sign with its operand. -/
theorem neg (h : KeepsSign f numerator denominator) (hsame : numerator true = numerator false)
    (x : Binary64) : f (-x) = -f x := by
  cases x with
  | nan => exact h.nan.trans (congrArg Binary64.neg h.nan).symm
  | infinite negative =>
    exact (h.infinite !negative).trans (congrArg Binary64.neg (h.infinite negative)).symm
  | finite negative units hgrid hlt =>
    have hsign (a : Bool) : numerator a = numerator false := by cases a <;> simp [hsame]
    have hflip := h.finite (.finite (!negative) units hgrid hlt) rfl
    rw [h.finite (.finite negative units hgrid hlt) rfl, neg_ofQuotient, hsign]
    rw [hsign] at hflip
    exact hflip

/-- The result as a sign and a number of units, if it is finite. -/
theorem units_eq (h : KeepsSign f numerator denominator) (hx : x.isFinite) (hfx : (f x).isFinite) :
    (f x).isNegative = x.isNegative ∧
      (f x).units = roundUnits (numerator x.isNegative x.units) denominator := by
  rw [h.finite x hx] at hfx ⊢
  unfold ofQuotient at hfx ⊢
  split
  case isTrue => exact ⟨rfl, rfl⟩
  case isFalse hge =>
    rw [dif_neg hge] at hfx
    cases hfx

end KeepsSign

/-! Scaled and whole numbers in units -/

theorem units_mul_powTen {places : Nat} (hplaces : places ≤ 22) (hx : x.isFinite)
    (hscaled : (x * powTen places).isFinite) :
    (x * powTen places).isNegative = x.isNegative ∧
      (x * powTen places).units = roundUnits (x.units * 10 ^ places) 1 := by
  obtain ⟨hsign, hunits⟩ :=
    (keepsSign_mul_powTen (hplaces.trans (by decide))).units_eq hx hscaled
  refine ⟨hsign, hunits.trans ?_⟩
  rw [(powTen_exact hplaces).2.2, ← Nat.mul_assoc]
  simpa using roundUnits_mul_mul Nat.one_pos unitsPerOne_pos

theorem div_powTen_eq {places : Nat} (hplaces : places ≤ 22) (hx : x.isFinite) :
    x / powTen places = ofQuotient x.isNegative x.units (10 ^ places) := by
  refine ((keepsSign_div_powTen (hplaces.trans (by decide))).finite x hx).trans ?_
  rw [(powTen_exact hplaces).2.2]
  exact ofQuotient_congr _ (roundUnits_mul_mul (Nat.pow_pos (by decide)) unitsPerOne_pos)

theorem units_nearest (hx : x.isFinite) : x.nearest.isNegative = x.isNegative ∧
    x.nearest.units = nearestTo x.units unitsPerOne * unitsPerOne := by
  obtain ⟨hlow, hhigh⟩ := nearestTo_bounds x.units unitsPerOne_pos
  obtain ⟨hfinite, hvalue⟩ := toWhole_spec nearestTo hx hlow hhigh
  refine ⟨(keepsSign_nearest.units_eq hx hfinite).1, ?_⟩
  rw [← natAbs_signedUnits, show x.nearest.signedUnits = _ from hvalue]
  split <;> omega

end CourseAdmission.Binary64
