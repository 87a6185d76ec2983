import CourseAdmission.Criteria.Rule
import CourseAdmission.Proofs.Binary64.Scale
import CourseAdmission.Proofs.Criteria.Demand

/-!
What rounding does to the order of percentages, and to finite ones.

Taking to whole numbers respects the order. Rounding to decimal places does as long as the scaled
value is finite; a value beyond that is left alone, and lies so far above all thresholds, or below
them, that a demand does not notice.
-/

namespace CourseAdmission

open Binary64

namespace RoundingPolicy

variable {x y : Binary64} {places : Nat} {policy : RoundingPolicy}

theorem min_places_le (places : Nat) : min places maxPlaces ≤ 308 :=
  (Nat.min_le_right places maxPlaces).trans (by decide)

theorem tiePlaces_le : tiePlaces ≤ 308 := by decide

/-- The value in the unit of the last place, taken to few enough binary digits for ties to show. -/
def steadied (places : Nat) (value : Binary64) : Binary64 :=
  (value * powTen (min places maxPlaces) * powTen tiePlaces).nearest / powTen tiePlaces

theorem roundPlaces_eq (places : Nat) (value : Binary64) :
    roundPlaces places value = if (steadied places value).isFinite then
      (steadied places value).nearest / powTen (min places maxPlaces) else value := rfl

/-- Scaling up, taking to the nearest whole number and scaling back respect the order one by one. -/
theorem increasing_steadied (places : Nat) : Increasing (steadied places) := by
  have hscale := (keepsSign_mul_powTen (min_places_le places)).increasing
  have htie := (keepsSign_mul_powTen tiePlaces_le).increasing
  have hback := (keepsSign_div_powTen tiePlaces_le).increasing
  exact hback.comp (keepsSign_nearest.increasing.comp (htie.comp hscale))

theorem alike_steadied (places : Nat) (hxy : Alike x y) :
    Alike (steadied places x) (steadied places y) := by
  have hscale := (keepsSign_mul_powTen (min_places_le places)).alike hxy
  have htie := (keepsSign_mul_powTen tiePlaces_le).alike hscale
  have hnearest := keepsSign_nearest.alike htie
  exact (keepsSign_div_powTen tiePlaces_le).alike hnearest

/-- Finite percentages stay finite, however they are rounded. -/
theorem isFinite_apply (policy : RoundingPolicy) (hx : x.isFinite) :
    (policy.apply x).isFinite = true := by
  cases policy with
  | none => exact hx
  | up => exact (ceil_spec hx).1
  | down => exact (floor_spec hx).1
  | decimals places =>
    rw [apply, roundPlaces_eq]
    split
    case isTrue hsteadied =>
      exact isFinite_div_powTen (isFinite_nearest hsteadied) (min_places_le places)
    case isFalse => exact hx

/-- Equal percentages are rounded to equal ones. -/
theorem alike_apply (policy : RoundingPolicy) (hxy : Alike x y) :
    Alike (policy.apply x) (policy.apply y) := by
  cases policy with
  | none => exact hxy
  | up => exact keepsSign_ceil.alike hxy
  | down => exact keepsSign_floor.alike hxy
  | decimals places =>
    have hsteadied := alike_steadied places hxy
    rw [apply, apply, roundPlaces_eq, roundPlaces_eq, hsteadied.isFinite_eq]
    split
    case isTrue =>
      have hnearest := keepsSign_nearest.alike hsteadied
      exact (keepsSign_div_powTen (min_places_le places)).alike hnearest
    case isFalse => exact hxy

theorem isFinite_of_isFinite_steadied (hsteadied : (steadied places x).isFinite) :
    x.isFinite = true := by
  have hnearest := (keepsSign_div_powTen tiePlaces_le).isFinite_of_isFinite hsteadied
  have htie := keepsSign_nearest.isFinite_of_isFinite hnearest
  have hscale := (keepsSign_mul_powTen tiePlaces_le).isFinite_of_isFinite htie
  exact (keepsSign_mul_powTen (min_places_le places)).isFinite_of_isFinite hscale

/-- What is no finite number is left alone. -/
theorem apply_of_not_isFinite (policy : RoundingPolicy) (hx : ¬x.isFinite = true) :
    policy.apply x = x := by
  cases policy with
  | none => rfl
  | up => exact keepsSign_ceil.eq_self hx
  | down => exact keepsSign_floor.eq_self hx
  | decimals places =>
    rw [apply, roundPlaces_eq, if_neg (mt isFinite_of_isFinite_steadied hx)]

/-- Up to a thousand nothing overflows. -/
theorem isFinite_steadied_of_units_le (places : Nat) (hx : x.isFinite)
    (hunits : x.units ≤ 1000 * unitsPerOne) : (steadied places x).isFinite = true := by
  have hten : min places maxPlaces ≤ 10 := Nat.min_le_right places 10
  have hscale : 3 + min places maxPlaces ≤ 22 := by omega
  have htie : 3 + min places maxPlaces + tiePlaces ≤ 22 := by
    rw [tiePlaces]
    omega
  rw [show 1000 = 10 ^ 3 from rfl] at hunits
  obtain ⟨hscaled, hscaledUnits⟩ := mul_powTen_spec hx hscale hunits
  obtain ⟨htied, -⟩ := mul_powTen_spec hscaled htie hscaledUnits
  exact isFinite_div_powTen (isFinite_nearest htied) tiePlaces_le

/-- Percentages are scaled without leaving the finite numbers. -/
theorem isFinite_steadied_zero_hundred (places : Nat) :
    (steadied places 0).isFinite ∧ (steadied places 100).isFinite := by
  have hwhole {n : Nat} (hn : n ≤ 100) : (steadied places (ofNat n)).isFinite = true := by
    rw [ofNat_eq (hn.trans (by decide))]
    exact isFinite_steadied_of_units_le places rfl (Nat.mul_le_mul_right _ (by omega))
  exact ⟨hwhole (Nat.zero_le 100), hwhole le_rfl⟩

end RoundingPolicy

namespace Demand

open RoundingPolicy

variable {x y : Binary64} {demand : Demand}

/-- A threshold on rounded decimal places. Where one of the values is beyond the scale, it is
    compared unrounded, and lies above every threshold. -/
theorem le_roundPlaces_of_le {required : Binary64} (hrequired : required.IsPercent) {places : Nat}
    (hle : x ≤ y) (hx : required ≤ roundPlaces places x) : required ≤ roundPlaces places y := by
  obtain ⟨hzero, hhundred⟩ := isFinite_steadied_zero_hundred places
  have hsteadied := increasing_steadied places hle
  rw [roundPlaces_eq] at hx ⊢
  by_cases hxFinite : (steadied places x).isFinite = true
  · rw [if_pos hxFinite] at hx
    by_cases hyFinite : (steadied places y).isFinite = true
    · rw [if_pos hyFinite]
      have hnearest := keepsSign_nearest.increasing hsteadied
      have hback := (keepsSign_div_powTen (min_places_le places)).increasing hnearest
      exact Binary64.le_trans hx hback
    · rw [if_neg hyFinite]
      have hbeyond := eq_infinite_of_isFinite_of_le hxFinite hyFinite hsteadied
      have habove : (100 : Binary64) ≤ y := by
        have hy := (le_iff_place.1 hle).2.1
        have hnan : (100 : Binary64) ≠ .nan :=
          ne_nan_of_isFinite (ofNat_spec (n := 100) (by decide)).1
        refine (Binary64.le_total hnan hy).resolve_right fun hbelow => ?_
        have hscaled := increasing_steadied places hbelow
        rw [hbeyond] at hscaled
        rw [eq_infinite_of_le hscaled] at hhundred
        cases hhundred
      exact Binary64.le_trans hrequired.2 habove
  · -- the lesser value is at least the threshold, so it is beyond the scale on the positive side
    rw [if_neg hxFinite] at hx
    have hpositive := increasing_steadied places (Binary64.le_trans hrequired.1 hx)
    have hxBeyond := eq_infinite_of_isFinite_of_le hzero hxFinite hpositive
    rw [hxBeyond] at hsteadied
    rw [eq_infinite_of_le hsteadied, if_neg nofun]
    exact Binary64.le_trans hx hle

/-- A greater percentage meets every demand that a smaller one meets. -/
theorem holds_of_le (hle : x ≤ y) (hx : demand.holds x = true) : demand.holds y = true := by
  rw [holds, decide_eq_true_iff, rounded] at hx ⊢
  obtain ⟨required, rounding, hrequired, hallowed⟩ := demand
  dsimp only at hx ⊢
  cases rounding with
  | none => exact Binary64.le_trans hx hle
  | up => exact Binary64.le_trans hx (keepsSign_ceil.increasing hle)
  | down => exact Binary64.le_trans hx (keepsSign_floor.increasing hle)
  | decimals places => exact le_roundPlaces_of_le hrequired hle hx

/-- Of what is no finite number only the positive infinity meets a demand, and it meets all. -/
theorem holds_iff_of_not_isFinite (hx : ¬x.isFinite = true) :
    demand.holds x = true ↔ x = .infinite false := by
  rw [holds, decide_eq_true_iff, rounded, apply_of_not_isFinite demand.rounding hx]
  constructor
  · exact eq_infinite_of_isFinite_of_le demand.isPercent.isFinite hx
  · rintro rfl
    rw [le_iff_place, place_infinite_false]
    have hplace := natAbs_place_le demand.required
    exact ⟨ne_nan_of_isFinite demand.isPercent.isFinite, by simp, by omega⟩

theorem holds_eq_of_alike (demand : Demand) (hxy : Alike x y) :
    demand.holds x = demand.holds y := by
  rw [holds, holds, decide_eq_decide]
  exact (alike_apply demand.rounding hxy).le_iff

end Demand

end CourseAdmission
