import CourseAdmission.Proofs.Binary64.Scale
import CourseAdmission.Proofs.Criteria.Demand
import CourseAdmission.Proofs.Decimal.FewDigits
import CourseAdmission.Proofs.Json.Double
import CourseAdmission.Proofs.Results.Mean

/-!
Written doubles are read back within the finite numbers, and written percentages as percentages.

The digits of a double lie among the reals that round to it. Scaling them rounds three times, which
could lead beyond the greatest double or beyond a hundred; below the greatest double and below a
hundred there is a gap that makes up for it, and these two numbers themselves come back.
-/

namespace CourseAdmission

open Json Numeral

namespace Binary64

variable {x y : Binary64}

/-- A quotient is a percentage if its exact value is at most a hundred. -/
theorem isPercent_div (hx : x.isFinite) (hy : y.isFinite) (hsign : 0 ≤ x.signedUnits)
    (hpos : 0 < y.signedUnits) (hle : x.signedUnits ≤ 100 * y.signedUnits) :
    (x / y).IsPercent := by
  have hxUnits := natAbs_signedUnits x
  have hyUnits := natAbs_signedUnits y
  have hround : roundUnits (x.units * unitsPerOne) y.units ≤ 100 * unitsPerOne := by
    apply roundUnits_le_of_le (onGrid_mul_unitsPerOne (by decide)) (by omega)
    calc x.units * unitsPerOne ≤ 100 * y.units * unitsPerOne :=
          Nat.mul_le_mul_right _ (by omega)
      _ = 100 * unitsPerOne * y.units := by ring
  obtain ⟨hfinite, hvalue⟩ := div_spec hx hy hpos
    (hround.trans_lt (mul_unitsPerOne_lt (by decide)))
  rw [if_neg (by omega)] at hvalue
  exact isPercent_iff.2 ⟨hfinite, by omega, by omega⟩

end Binary64

open Binary64

namespace Decimal

variable {units : Nat}

/-- The digits of a double do not exceed a bound on the reals that round to it. -/
theorem digits_mul_le {bound : Nat} (hunits : 0 < units) (hbounded : units < unitLimit)
    (hhigh : 4 * units + 2 * Binary64.spacing units ≤ bound * (4 * unitsPerOne)) :
    (shortest .even units).digits * 10 ^ (shortest .even units).exponent.toNat ≤
      bound * 10 ^ (-(shortest .even units).exponent).toNat := by
  have hholds := (Interval.holds_le (holds_of_onGrid? (shortest_spec .even hunits hbounded).1)).2
  rw [(interval_bounds hunits).2.2] at hholds
  have hquarters : 0 < 4 * unitsPerOne := Nat.mul_pos (by decide) unitsPerOne_pos
  generalize (shortest .even units).digits = digits at *
  generalize (shortest .even units).exponent = exponent at *
  unfold spacing at hholds
  by_cases hexponent : 0 ≤ exponent
  · have hplaces : (-exponent).toNat = 0 := by omega
    rw [if_pos hexponent, Nat.mul_one, Nat.pow_eq, ← Nat.mul_assoc] at hholds
    rw [hplaces, Nat.pow_zero, Nat.mul_one]
    exact Nat.le_of_mul_le_mul_right (hholds.trans hhigh) hquarters
  · have hzeros : exponent.toNat = 0 := by omega
    rw [if_neg hexponent, Nat.pow_eq] at hholds
    rw [hzeros, Nat.pow_zero, Nat.mul_one]
    apply Nat.le_of_mul_le_mul_right _ hquarters
    calc digits * (4 * unitsPerOne)
        ≤ (4 * units + 2 * Binary64.spacing units) * 10 ^ (-exponent).toNat := hholds
      _ ≤ bound * (4 * unitsPerOne) * 10 ^ (-exponent).toNat := Nat.mul_le_mul_right _ hhigh
      _ = bound * 10 ^ (-exponent).toNat * (4 * unitsPerOne) := by ring

/-- Up to a hundred the digits stand for at most a hundred. -/
theorem digits_mul_le_hundred (hgrid : OnGrid units) (hunits : 0 < units)
    (hle : units ≤ 100 * unitsPerOne) :
    (shortest .even units).digits * 10 ^ (shortest .even units).exponent.toNat ≤
      100 * 10 ^ (-(shortest .even units).exponent).toNat := by
  rcases hle.eq_or_lt with hequal | hlt
  · -- the digits of a hundred stand for just that
    have hround := roundUnits_one (onGrid_mul_unitsPerOne (n := 100) (by decide))
    obtain ⟨zeros, hexponent, hdigits⟩ := shortest_roundUnits .even
      (show 0 < 100 by decide) (by decide) (show 0 ≤ 22 by decide)
      (hround.trans_lt (mul_unitsPerOne_lt (by decide)))
    rw [Nat.pow_zero, hround, ← hequal] at hexponent hdigits
    have hzeros : (-(shortest .even units).exponent).toNat = 0 := by omega
    rw [hzeros, hexponent, ← hdigits]
    simp
  · have hbounded := hle.trans_lt (mul_unitsPerOne_lt (n := 100) (by decide))
    have hhundred := onGrid_dvd_of_le (onGrid_mul_unitsPerOne (n := 100) (by decide)) hle
    have hgap := add_le_of_dvd_of_lt hgrid hhundred hlt
    exact digits_mul_le hunits hbounded (by omega)

end Decimal

namespace Json

/-- A percentage is read as digits that are scaled down to a hundred at most. -/
theorem readParts_of_le_hundred {units : Nat} (hgrid : OnGrid units)
    (hle : units ≤ 100 * unitsPerOne) :
    ∃ places : Nat, 0 < places ∧ places ≤ 341 ∧
      (readParts (Decimal.shortest .even units)).2 = -places ∧
      (readParts (Decimal.shortest .even units)).1 ≤ 2 ^ 63 ∧
      (readParts (Decimal.shortest .even units)).1 ≤ 100 * 10 ^ places := by
  rcases Nat.eq_zero_or_pos units with rfl | hunits
  · exact ⟨1, by decide, by decide, rfl, by decide, by decide⟩
  have hbounded := hle.trans_lt (mul_unitsPerOne_lt (n := 100) (by decide))
  have hdigits := Decimal.digits_mul_le_hundred hgrid hunits hle
  have hpos := Decimal.shortest_digits_pos .even hunits hbounded
  have hshort := Decimal.shortest_digits_le .even hunits hbounded
  have hlow := (Decimal.shortest_exponent_bounds .even hunits hbounded).1
  generalize Decimal.shortest .even units = d at *
  by_cases hwhole : 0 ≤ d.exponent
  · have hplaces : (-d.exponent).toNat = 0 := by omega
    rw [hplaces, Nat.pow_zero, Nat.mul_one] at hdigits
    have hfew : d.digits ≤ 100 :=
      (Nat.le_mul_of_pos_right _ (Nat.pow_pos (by decide))).trans hdigits
    have hzeros : d.exponent.toNat ≤ 2 := by
      apply (Nat.pow_le_pow_iff_right (a := 10) (by decide)).1
      exact (Nat.le_mul_of_pos_left _ hpos).trans hdigits
    have hlength := length_leadingPlace d
    have hlengthPos := Nat.length_toDigits_pos (b := 10) (n := d.digits)
    have hlengthLe : (Nat.toDigits 10 d.digits).length ≤ 3 :=
      (Nat.length_toDigits_le_iff (by decide) (by decide)).2 (by omega)
    have hparts : readParts d = (d.digits * 10 ^ (d.exponent.toNat + 1), -1) :=
      if_pos ⟨decide_eq_true ⟨by omega, by omega⟩, hwhole⟩
    have hthousand : d.digits * 10 ^ (d.exponent.toNat + 1) ≤ 1000 := by
      rw [Nat.pow_succ, ← Nat.mul_assoc]
      omega
    rw [hparts]
    exact ⟨1, by decide, by decide, rfl, hthousand.trans (by decide), hthousand⟩
  · have hparts : readParts d = (d.digits, d.exponent) := if_neg fun h => hwhole h.2
    have hzeros : d.exponent.toNat = 0 := by omega
    rw [hzeros, Nat.pow_zero, Nat.mul_one] at hdigits
    rw [hparts]
    exact ⟨(-d.exponent).toNat, by omega, by omega, by dsimp only; omega, hshort, hdigits⟩

theorem scale_of_neg {significand : Nat} {power : Int} (hpower : power < 0) :
    scale significand power = some (shrink (ofNat significand) power.natAbs) :=
  if_pos hpower

/-- The doubles of digits that are scaled down to a hundred at most. -/
theorem units_ofNat_le {significand places : Nat} (hword : significand ≤ 2 ^ 63)
    (hle : significand ≤ 100 * 10 ^ places) (hplaces : places ≤ maxPower) :
    (ofNat significand).isFinite ∧ (ofNat significand).signedUnits = (ofNat significand).units ∧
      (ofNat significand).units ≤ 100 * (powTen places).units := by
  -- up to the size of a word a hundred times a power of ten is a double
  have hexact {zeros : Nat} (hzeros : zeros ≤ 17) (hbelow : significand ≤ 100 * 10 ^ zeros) :
      (ofNat significand).isFinite ∧ (ofNat significand).signedUnits = (ofNat significand).units ∧
        (ofNat significand).units ≤ 100 * (powTen zeros).units := by
    obtain ⟨htop, -, htopUnits⟩ := powTen_exact (show zeros + 2 ≤ 22 by omega)
    obtain ⟨-, -, htenUnits⟩ := powTen_exact (show zeros ≤ 22 by omega)
    have hpower : significand ≤ 10 ^ (zeros + 2) := by
      rw [Nat.pow_add]
      omega
    obtain ⟨hfinite, hvalue, hunits⟩ := ofNat_spec_of_le hpower htop
    refine ⟨hfinite, hvalue, hunits.trans_eq (htopUnits.trans ?_)⟩
    rw [htenUnits]
    ring
  by_cases hmany : 17 ≤ places
  · obtain ⟨hfinite, hvalue, hunits⟩ := hexact le_rfl (hword.trans (by decide))
    obtain ⟨-, -, hpower⟩ := powTen_spec_of_le hmany hplaces
    exact ⟨hfinite, hvalue, hunits.trans (Nat.mul_le_mul_left 100 hpower)⟩
  · exact hexact (Nat.le_of_not_le hmany) hle

theorem isPercent_div_powTen {x : Binary64} {places : Nat} (hx : x.isFinite)
    (hsign : 0 ≤ x.signedUnits) (hplaces : places ≤ maxPower)
    (hle : x.signedUnits ≤ 100 * (powTen places).units) : (x / powTen places).IsPercent := by
  obtain ⟨hpower, hvalue, hunits⟩ := powTen_spec hplaces
  have hone := unitsPerOne_pos
  generalize powTen places = c at *
  exact isPercent_div hx hpower hsign (by omega) (by omega)

theorem isPercent_ofNat_div {significand places : Nat} (hword : significand ≤ 2 ^ 63)
    (hle : significand ≤ 100 * 10 ^ places) (hplaces : places ≤ maxPower) :
    (ofNat significand / powTen places).IsPercent := by
  obtain ⟨hfinite, hvalue, hunits⟩ := units_ofNat_le hword hle hplaces
  exact isPercent_div_powTen hfinite (by omega) hplaces (by omega)

theorem isPercent_shrink {significand places : Nat} (hword : significand ≤ 2 ^ 63)
    (hle : significand ≤ 100 * 10 ^ places) (hplaces : places ≤ 2 * maxPower) :
    (shrink (ofNat significand) places).IsPercent := by
  unfold shrink
  by_cases hsmall : places ≤ maxPower
  · rw [if_pos hsmall]
    exact isPercent_ofNat_div hword hle hsmall
  · rw [if_neg hsmall, if_pos hplaces]
    have hgreat : significand ≤ 100 * 10 ^ maxPower := by
      refine (hword.trans (show 2 ^ 63 ≤ 100 * 10 ^ 17 by decide)).trans ?_
      exact Nat.mul_le_mul_left _ (Nat.pow_le_pow_right (by decide) (by decide))
    have hfirst := isPercent_ofNat_div hword hgreat le_rfl
    have hrest : places - maxPower ≤ maxPower := by omega
    obtain ⟨hfinite, hlow, hhigh⟩ := isPercent_iff.1 hfirst
    obtain ⟨-, -, hunits⟩ := powTen_spec hrest
    exact isPercent_div_powTen hfinite hlow hrest
      (hhigh.trans (by exact_mod_cast Nat.mul_le_mul_left 100 hunits))

end Json

namespace Binary64

variable {x : Binary64}

/-- A number up to a hundred is read back as a percentage. -/
theorem readBack_of_le_hundred (hx : x.units ≤ 100 * unitsPerOne) :
    ∃ m, x.readBack = some m ∧ m.IsPercent := by
  have hgrid := onGrid_signedUnits x
  rw [natAbs_signedUnits] at hgrid
  obtain ⟨places, hpos, hplaces, hpower, hword, hle⟩ := readParts_of_le_hundred hgrid hx
  have hspan : places ≤ 2 * maxPower := hplaces.trans (by decide)
  refine ⟨_, ?_, isPercent_shrink hword hle hspan⟩
  unfold Binary64.readBack
  dsimp only
  rw [hpower, scale_of_neg (by omega), Int.natAbs_neg, Int.natAbs_natCast]

end Binary64

namespace Json

/-- The reals up to here round to a double below the greatest one. -/
def belowGreatest : Nat := Nat.pow 2 1024 - 3 * Nat.pow 2 970

/-- Digits that stand for such a real are scaled without leaving the finite numbers. -/
theorem isFinite_scaled {digits power : Nat} (hword : digits ≤ 2 ^ 63) (hpower : power ≤ maxPower)
    (hle : digits * 10 ^ power ≤ belowGreatest) :
    (ofNat digits * powTen power).isFinite = true := by
  have hten := (powTen_spec hpower).1
  by_cases hsmall : power ≤ 289
  · have hlimit : (ofNat (2 ^ 63)).isFinite ∧ (ofNat (2 ^ 63) * powTen 289).isFinite := by
      decide +kernel
    obtain ⟨hfinite, -, hunits⟩ := ofNat_spec_of_le hword hlimit.1
    obtain ⟨-, -, hscale⟩ := powTen_spec_of_le hsmall (show 289 ≤ maxPower by decide)
    have hbound := (powTen_spec (show 289 ≤ maxPower by decide)).1
    exact isFinite_mul_of_le hfinite hten hlimit.1 hbound hunits hscale hlimit.2
  · have hall : ∀ place < 19, (ofNat (belowGreatest / 10 ^ (290 + place))).isFinite ∧
        (ofNat (belowGreatest / 10 ^ (290 + place)) * powTen (290 + place)).isFinite := by
      decide +kernel
    have hlast : power ≤ 308 := hpower
    obtain ⟨hbound, hproduct⟩ := hall (power - 290) (by omega)
    rw [show 290 + (power - 290) = power by omega] at hbound hproduct
    have hdigits := (Nat.le_div_iff_mul_le (Nat.pow_pos (by decide))).2 hle
    obtain ⟨hfinite, -, hunits⟩ := ofNat_spec_of_le hdigits hbound
    exact isFinite_mul_of_le hfinite hten hbound hten hunits le_rfl hproduct

/-- The greatest double in numbers: the gap below it, where it lies, the power of ten above it, and
    that it is read back. -/
theorem greatest_spec :
    Binary64.spacing (unitLimit - 1) = Nat.pow 2 2045 ∧
      unitLimit = Binary64.significandLimit * Nat.pow 2 2045 ∧
      4 * unitLimit = belowGreatest * (4 * unitsPerOne) + 6 * Nat.pow 2 2045 ∧
      belowGreatest < 10 ^ (maxPower + 1) ∧
      let d := Decimal.shortest .even (unitLimit - Nat.pow 2 2045)
      (scale (readParts d).1 (readParts d).2).isSome = true := by
  decide +kernel

/-- Below the greatest double there is another one, and the reals around it end before the
    former. -/
theorem high_le_belowGreatest {units : Nat} (hgrid : OnGrid units) (hbounded : units < unitLimit)
    (hne : units ≠ unitLimit - Nat.pow 2 2045) :
    4 * units + 2 * Binary64.spacing units ≤ belowGreatest * (4 * unitsPerOne) := by
  obtain ⟨hspacing, hlimit, hbelow, -⟩ := greatest_spec
  have hdvd := spacing_dvd_spacing (show units ≤ unitLimit - 1 by omega)
  have hwidth := lt_mul_spacing units
  rw [hspacing] at hdvd
  rw [OnGrid] at hgrid
  generalize Nat.pow 2 2045 = widest at *
  generalize Binary64.spacing units = gap at *
  generalize unitLimit = limit, belowGreatest * (4 * unitsPerOne) = bound at *
  rw [Binary64.significandLimit, Nat.pow_eq] at hlimit hwidth
  obtain ⟨ratio, rfl⟩ := hdvd
  rcases Nat.lt_or_ge ratio 2 with hratio | hratio
  · -- the widest gap: one multiple of it is the greatest double
    have hone : ratio = 1 := by
      have : ratio ≠ 0 := by
        rintro rfl
        omega
      omega
    subst hone
    rw [Nat.mul_one] at *
    have hlimitDvd : gap ∣ limit := hlimit ▸ Nat.dvd_mul_left _ _
    have hnext := add_le_of_dvd_of_lt hgrid hlimitDvd hbounded
    have hgreatest : gap ∣ limit - gap := Nat.dvd_sub hlimitDvd (Nat.dvd_refl gap)
    have := add_le_of_dvd_of_lt hgrid hgreatest (by omega)
    omega
  · have := Nat.mul_le_mul_left gap hratio
    omega

end Json

namespace Binary64

/-- No text of a double is read as a number beyond the finite ones. -/
theorem exists_readBack (x : Binary64) : ∃ m, x.readBack = some m := by
  have hgrid := onGrid_signedUnits x
  have hbounded := natAbs_signedUnits_lt x
  rw [natAbs_signedUnits] at hgrid hbounded
  by_cases hsmall : x.units ≤ 100 * unitsPerOne
  · obtain ⟨m, hm, -⟩ := readBack_of_le_hundred hsmall
    exact ⟨m, hm⟩
  have hunits : 0 < x.units := by omega
  unfold readBack
  generalize x.units = units at *
  by_cases hgreatest : units = unitLimit - Nat.pow 2 2045
  · rw [hgreatest, ← Option.isSome_iff_exists]
    exact greatest_spec.2.2.2.2
  have hdigits := Decimal.digits_mul_le hunits hbounded
    (high_le_belowGreatest hgrid hbounded hgreatest)
  have hpos := Decimal.shortest_digits_pos .even hunits hbounded
  have hword := Decimal.shortest_digits_le .even hunits hbounded
  dsimp only
  generalize Decimal.shortest .even units = d at *
  by_cases hparts : layout.positional d.leadingPlace = true ∧ 0 ≤ d.exponent
  · rw [readParts, if_pos hparts]
    exact ⟨_, scale_of_neg (show (-1 : Int) < 0 by decide)⟩
  rw [readParts, if_neg hparts]
  dsimp only
  by_cases hnegative : d.exponent < 0
  · exact ⟨_, scale_of_neg hnegative⟩
  have hplaces : 10 ^ (-d.exponent).toNat = 1 := by
    rw [show (-d.exponent).toNat = 0 by omega, Nat.pow_zero]
  rw [hplaces, Nat.mul_one] at hdigits
  have hpower : d.exponent.toNat ≤ maxPower := by
    have hten : 10 ^ d.exponent.toNat ≤ belowGreatest := by
      generalize belowGreatest = bound at hdigits ⊢
      exact (Nat.le_mul_of_pos_left _ hpos).trans hdigits
    by_contra hlarge
    have hpow : 10 ^ (maxPower + 1) ≤ 10 ^ d.exponent.toNat :=
      Nat.pow_le_pow_right (by decide) (Nat.lt_of_not_le hlarge)
    have hbound := greatest_spec.2.2.2.1
    generalize belowGreatest = bound at hten hbound
    omega
  have hfinite := isFinite_scaled hword hpower hdigits
  refine ⟨ofNat d.digits * powTen d.exponent.toNat, ?_⟩
  rw [scale, if_neg hnegative, if_neg hpos.ne', if_pos (by omega),
    show d.exponent.natAbs = d.exponent.toNat by omega, if_pos hfinite]

end Binary64

end CourseAdmission
