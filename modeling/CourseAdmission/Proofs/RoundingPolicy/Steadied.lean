import CourseAdmission.Proofs.Binary64.Precision
import CourseAdmission.Proofs.Decimal.Plain
import CourseAdmission.Proofs.RoundingPolicy

/-!
How near the scaled value comes to a decimal.

A decimal is rounded when it is read, when it is scaled, when it is scaled once more for the ties,
and when that scale is undone. For half the units of the last place these roundings together amount
to less than an eighth of a place, as long as the value is at most a thousand.
-/

namespace CourseAdmission

open Binary64

namespace RoundingPolicy

variable {places units halves : Nat} {x : Binary64}

theorem places_le_exact (hplaces : places ≤ maxPlaces) : places ≤ 22 :=
  hplaces.trans (by decide)

theorem tiePlaces_le_exact : tiePlaces ≤ 22 := by decide

/-- Numbers up to ten thousand have few digits at so many places. -/
theorem few_digits {n : Nat} (hplaces : places ≤ maxPlaces) (hn : n ≤ 10000 * 10 ^ places) :
    n < 10 ^ 15 := by
  have hten : 10 ^ places ≤ 10 ^ maxPlaces := Nat.pow_le_pow_right (by decide) hplaces
  have hroom : 10000 * 10 ^ maxPlaces < 10 ^ 15 := by decide
  omega

/-! The scaled value in units -/

/-- The distance from zero after scaling, in units. -/
def scaledUnits (places units : Nat) : Nat := roundUnits (units * 10 ^ places) 1

/-- The scaled value as a whole number of the places that ties are taken to. -/
def tieSteps (places units : Nat) : Nat :=
  nearestTo (roundUnits (scaledUnits places units * 10 ^ tiePlaces) 1) unitsPerOne

/-- The distance from zero of the steadied value, in units. -/
def steadiedUnits (places units : Nat) : Nat :=
  roundUnits (tieSteps places units * unitsPerOne) (10 ^ tiePlaces)

theorem units_steadied (hplaces : places ≤ maxPlaces) (hx : (steadied places x).isFinite) :
    (steadied places x).isNegative = x.isNegative ∧
      (steadied places x).units = steadiedUnits places x.units := by
  have hxFinite := isFinite_of_isFinite_steadied hx
  rw [steadied, Nat.min_eq_left hplaces] at hx ⊢
  have hwhole : (x * powTen places * powTen tiePlaces).nearest.isFinite = true :=
    (keepsSign_div_powTen tiePlaces_le).isFinite_of_isFinite hx
  have htied : (x * powTen places * powTen tiePlaces).isFinite = true :=
    keepsSign_nearest.isFinite_of_isFinite hwhole
  have hscaled : (x * powTen places).isFinite = true :=
    (keepsSign_mul_powTen tiePlaces_le).isFinite_of_isFinite htied
  obtain ⟨hsign, hunits⟩ :=
    units_mul_powTen (places_le_exact hplaces) hxFinite hscaled
  obtain ⟨hsign', hunits'⟩ := units_mul_powTen tiePlaces_le_exact hscaled htied
  obtain ⟨hsign'', hunits''⟩ := units_nearest htied
  rw [div_powTen_eq tiePlaces_le_exact hwhole] at hx ⊢
  obtain ⟨-, hnegative, hvalue⟩ := ofQuotient_spec _ (isFinite_ofQuotient_iff.1 hx)
  rw [hnegative, hvalue, hsign'', hsign', hsign, hunits'', hunits', hunits]
  exact ⟨rfl, rfl⟩

/-- Rounding to places takes the steadied value to a whole number of the last place. -/
theorem roundPlaces_eq_ofQuotient (hplaces : places ≤ maxPlaces)
    (hx : (steadied places x).isFinite) : roundPlaces places x = ofQuotient x.isNegative
      (nearestTo (steadiedUnits places x.units) unitsPerOne * unitsPerOne) (10 ^ places) := by
  obtain ⟨hsign, hunits⟩ := units_steadied hplaces hx
  obtain ⟨hsign', hunits'⟩ := units_nearest hx
  rw [roundPlaces_eq, if_pos hx, Nat.min_eq_left hplaces,
    div_powTen_eq (places_le_exact hplaces) (isFinite_nearest hx), hsign', hunits', hsign,
    hunits]

/-- A value changes its sign under rounding with its own sign. -/
theorem roundPlaces_neg (places : Nat) (x : Binary64) :
    roundPlaces places (-x) = -roundPlaces places x := by
  have hback {k : Nat} (hk : k ≤ 308) (y : Binary64) : -y / powTen k = -(y / powTen k) :=
    (keepsSign_div_powTen hk).neg rfl y
  have hscale {k : Nat} (hk : k ≤ 308) (y : Binary64) : -y * powTen k = -(y * powTen k) :=
    (keepsSign_mul_powTen hk).neg rfl y
  have hnearest (y : Binary64) : (-y).nearest = -y.nearest := keepsSign_nearest.neg rfl y
  have hplaces := min_places_le places
  have hsteadied : steadied places (-x) = -steadied places x := by
    rw [steadied, hscale hplaces, hscale tiePlaces_le, hnearest, hback tiePlaces_le, steadied]
  rw [roundPlaces_eq, roundPlaces_eq, hsteadied, isFinite_neg, hnearest, hback hplaces]
  split <;> rfl

/-! Decimals, as they are read -/

/-- So many halves of the last of so many places, as they are read, in units. -/
def readHalves (places halves : Nat) : Nat := roundUnits (halves * unitsPerOne) (2 * 10 ^ places)

theorem steadiedUnits_zero (places : Nat) : steadiedUnits places 0 = 0 := by
  have hone := unitsPerOne_pos
  have hnearest : nearestTo 0 unitsPerOne = 0 := Nat.div_eq_of_lt (by omega)
  rw [steadiedUnits, tieSteps, scaledUnits, Nat.zero_mul, roundUnits_zero, Nat.zero_mul,
    roundUnits_zero, hnearest, Nat.zero_mul, roundUnits_zero]

/-- Reading changes a decimal by at most one part in `2 ^ 53`. -/
theorem readHalves_relative (hpos : 0 < halves) (hplaces : places ≤ maxPlaces) :
    2 ^ 53 * (halves * unitsPerOne) ≤
        2 ^ 54 * (readHalves places halves * 10 ^ places) + halves * unitsPerOne ∧
      2 ^ 54 * (readHalves places halves * 10 ^ places) ≤
        2 ^ 53 * (halves * unitsPerOne) + halves * unitsPerOne := by
  have hten : 0 < 10 ^ places := Nat.pow_pos (by decide)
  have hlarge : 2 ^ 52 * (2 * 10 ^ places) ≤ halves * unitsPerOne := by
    obtain ⟨k, hk, hone⟩ := unitsPerOne_eq_pow
    calc 2 ^ 52 * (2 * 10 ^ places) ≤ 2 ^ 52 * (2 * 10 ^ maxPlaces) :=
          Nat.mul_le_mul_left _ (Nat.mul_le_mul_left 2 (Nat.pow_le_pow_right (by decide) hplaces))
      _ ≤ 2 ^ 100 := by decide
      _ ≤ 2 ^ k := Nat.pow_le_pow_right (by decide) hk.le
      _ = unitsPerOne := hone.symm
      _ ≤ halves * unitsPerOne := Nat.le_mul_of_pos_left _ hpos
  have hrelative := roundUnits_relative (by omega) hlarge
  rw [← readHalves, Nat.mul_left_comm _ 2] at hrelative
  omega

/-- As long as the value is at most a thousand, its digits have room in a significand. -/
theorem halves_le (hplaces : places ≤ maxPlaces) (hhalves : halves ≤ 2000 * 10 ^ places) :
    8 * halves + 1 ≤ significandLimit := by
  have hten : 10 ^ places ≤ 10 ^ maxPlaces := Nat.pow_le_pow_right (by decide) hplaces
  have hroom : 8 * (2000 * 10 ^ maxPlaces) + 1 ≤ significandLimit := by decide
  omega

/-- After scaling, the error is at most an eighth of a half. -/
theorem scaledUnits_near (hpos : 0 < halves) (hplaces : places ≤ maxPlaces)
    (hhalves : halves ≤ 2000 * 10 ^ places) :
    (8 * halves - 1) * unitsPerOne ≤ 2 ^ 4 * scaledUnits places (readHalves places halves) ∧
      2 ^ 4 * scaledUnits places (readHalves places halves) ≤ (8 * halves + 1) * unitsPerOne := by
  have hroom := halves_le hplaces hhalves
  obtain ⟨hlow, hhigh⟩ := readHalves_relative hpos hplaces
  have hpart := Nat.mul_le_mul_right unitsPerOne hroom
  rw [show significandLimit = 2 ^ 53 from rfl, Nat.add_mul, Nat.mul_assoc] at hpart
  constructor
  · apply le_roundUnits_of_fraction_le Nat.one_pos (by omega) (by decide)
    rw [Nat.mul_one, Nat.sub_mul, Nat.mul_assoc]
    omega
  · apply roundUnits_le_of_le_fraction Nat.one_pos hroom (by decide)
    rw [Nat.mul_one, Nat.add_mul, Nat.mul_assoc]
    omega

/-- After the second scaling it is at most a quarter of a half, which is `125000000` steps. -/
theorem tieSteps_near (hpos : 0 < halves) (hplaces : places ≤ maxPlaces)
    (hhalves : halves ≤ 2000 * 10 ^ places) :
    (4 * halves - 1) * 125000000 ≤ tieSteps places (readHalves places halves) ∧
      tieSteps places (readHalves places halves) ≤ (4 * halves + 1) * 125000000 := by
  have hone := unitsPerOne_pos
  have hroom := Nat.mul_le_mul_right unitsPerOne (halves_le hplaces hhalves)
  rw [show significandLimit = 2 ^ 53 from rfl] at hroom
  obtain ⟨hlow, hhigh⟩ := scaledUnits_near hpos hplaces hhalves
  unfold tieSteps
  generalize scaledUnits places (readHalves places halves) = scaled at *
  obtain ⟨hlow', hhigh'⟩ := roundUnits_one_relative (scaled * 10 ^ tiePlaces)
  rw [show 10 ^ tiePlaces = 1000000000 from rfl] at *
  generalize roundUnits (scaled * 1000000000) 1 = tied at *
  rw [Nat.sub_mul, Nat.mul_assoc] at hlow
  rw [Nat.add_mul, Nat.mul_assoc] at hhigh hroom
  constructor
  · rw [le_nearestTo_iff hone]
    have hsplit : 2 * ((4 * halves - 1) * 125000000) * unitsPerOne =
        250000000 * (4 * (halves * unitsPerOne) - unitsPerOne) := by
      rw [← Nat.mul_assoc 4, ← Nat.sub_one_mul]
      ring
    rw [hsplit]
    omega
  · rw [nearestTo_le_iff hone]
    have hsplit : (2 * ((4 * halves + 1) * 125000000) + 1) * unitsPerOne =
        1000000000 * (halves * unitsPerOne) + 250000001 * unitsPerOne := by ring
    rw [hsplit]
    omega

/-- So the steadied value of a decimal is less than a quarter of a half off. -/
theorem steadiedUnits_near (hpos : 0 < halves) (hplaces : places ≤ maxPlaces)
    (hhalves : halves ≤ 2000 * 10 ^ places) :
    (4 * halves - 1) * unitsPerOne ≤ 2 ^ 3 * steadiedUnits places (readHalves places halves) ∧
      2 ^ 3 * steadiedUnits places (readHalves places halves) ≤
        (4 * halves + 1) * unitsPerOne := by
  have hroom := halves_le hplaces hhalves
  obtain ⟨hlow, hhigh⟩ := tieSteps_near hpos hplaces hhalves
  unfold steadiedUnits
  constructor
  · apply le_roundUnits_of_fraction_le (by decide) (by omega) (by decide)
    calc (4 * halves - 1) * unitsPerOne * 10 ^ tiePlaces =
          2 ^ 3 * ((4 * halves - 1) * 125000000 * unitsPerOne) := by
          rw [show 10 ^ tiePlaces = 2 ^ 3 * 125000000 from rfl]
          ring
      _ ≤ 2 ^ 3 * (tieSteps places (readHalves places halves) * unitsPerOne) :=
        Nat.mul_le_mul_left _ (Nat.mul_le_mul_right _ hlow)
  · apply roundUnits_le_of_le_fraction (by decide) (by omega) (by decide)
    calc 2 ^ 3 * (tieSteps places (readHalves places halves) * unitsPerOne) ≤
          2 ^ 3 * ((4 * halves + 1) * 125000000 * unitsPerOne) :=
        Nat.mul_le_mul_left _ (Nat.mul_le_mul_right _ hhigh)
      _ = (4 * halves + 1) * unitsPerOne * 10 ^ tiePlaces := by
          rw [show 10 ^ tiePlaces = 2 ^ 3 * 125000000 from rfl]
          ring

end RoundingPolicy

end CourseAdmission
