import CourseAdmission.Proofs.RoundingPolicy.Steadied

/-!
Rounding to decimal places leaves decimals of so many places alone.

The steadied value of such a decimal lies less than an eighth of a place off a whole number of
places, which the last rounding finds. Dividing it by the power of ten is the same as reading the
decimal, so the double that was read comes back, and rounding a second time changes nothing.
-/

namespace CourseAdmission

open Binary64

namespace RoundingPolicy

variable {places digits halves : Nat} {x : Binary64}

theorem steadiedUnits_le_steadiedUnits (places : Nat) {m n : Nat} (hle : m ≤ n) :
    steadiedUnits places m ≤ steadiedUnits places n := by
  have hround {a b d : Nat} (hd : 0 < d) (hab : a ≤ b) : roundUnits a d ≤ roundUnits b d :=
    roundUnits_le_roundUnits hd hd (Nat.mul_le_mul_right d hab)
  have hscaled : scaledUnits places m ≤ scaledUnits places n :=
    hround Nat.one_pos (Nat.mul_le_mul_right _ hle)
  have htied := hround Nat.one_pos (Nat.mul_le_mul_right (10 ^ tiePlaces) hscaled)
  refine hround (by decide) (Nat.mul_le_mul_right _ ?_)
  exact Nat.div_le_div_right (by omega)

theorem readHalves_of_whole (places n : Nat) (hn : n ≤ significandLimit) :
    readHalves places (2 * n * 10 ^ places) = n * unitsPerOne := by
  have hten : 0 < 10 ^ places := Nat.pow_pos (by decide)
  rw [readHalves, show 2 * n * 10 ^ places * unitsPerOne =
    n * unitsPerOne * (2 * 10 ^ places) by ring]
  exact roundUnits_mul_left (onGrid_mul_unitsPerOne hn) (by omega)

theorem readHalves_le (hhalves : halves ≤ 2000 * 10 ^ places) :
    readHalves places halves ≤ 1000 * unitsPerOne := by
  have hten : 0 < 10 ^ places := Nat.pow_pos (by decide)
  rw [← readHalves_of_whole places 1000 (by decide)]
  exact roundUnits_le_roundUnits (by omega) (by omega)
    (Nat.mul_le_mul_right _ (Nat.mul_le_mul_right _ hhalves))

/-- The whole number of places that rounding arrives at. -/
def roundedPlaces (places units : Nat) : Nat := nearestTo (steadiedUnits places units) unitsPerOne

theorem roundedPlaces_le_roundedPlaces (places : Nat) {m n : Nat} (hle : m ≤ n) :
    roundedPlaces places m ≤ roundedPlaces places n := by
  have := steadiedUnits_le_steadiedUnits places hle
  exact Nat.div_le_div_right (by omega)

/-- A whole number of places is found again. -/
theorem roundedPlaces_readHalves (hplaces : places ≤ maxPlaces)
    (hdigits : digits ≤ 1000 * 10 ^ places) :
    roundedPlaces places (readHalves places (2 * digits)) = digits := by
  have hone := unitsPerOne_pos
  rcases Nat.eq_zero_or_pos digits with rfl | hpos
  · rw [readHalves, Nat.mul_zero, Nat.zero_mul, roundUnits_zero, roundedPlaces, steadiedUnits_zero]
    exact Nat.div_eq_of_lt (by omega)
  · obtain ⟨hlow, hhigh⟩ := steadiedUnits_near
      (Nat.mul_pos Nat.two_pos hpos) hplaces (show 2 * digits ≤ _ by omega)
    unfold roundedPlaces
    generalize steadiedUnits places (readHalves places (2 * digits)) = steadied at *
    rw [Nat.sub_mul, ← Nat.mul_assoc, Nat.mul_assoc] at hlow
    rw [Nat.add_mul, ← Nat.mul_assoc, Nat.mul_assoc] at hhigh
    apply Nat.le_antisymm
    · rw [nearestTo_le_iff hone, Nat.add_mul, Nat.mul_assoc]
      omega
    · rw [le_nearestTo_iff hone, Nat.mul_assoc]
      omega

/-- Numbers up to a thousand are rounded to decimals of so many places, as they are read. -/
theorem roundPlaces_eq_ofDecimal (hplaces : places ≤ maxPlaces) (hx : x.isFinite)
    (hunits : x.units ≤ 1000 * unitsPerOne) :
    roundedPlaces places x.units ≤ 1000 * 10 ^ places ∧
      roundPlaces places x = .ofDecimal x.isNegative (roundedPlaces places x.units) (-places) := by
  have hbound : roundedPlaces places x.units ≤ 1000 * 10 ^ places := by
    rw [← readHalves_of_whole places 1000 (by decide), Nat.mul_assoc] at hunits
    exact (roundedPlaces_le_roundedPlaces places hunits).trans_eq
      (roundedPlaces_readHalves hplaces le_rfl)
  have hdigits : roundedPlaces places x.units < 10 ^ 15 := few_digits hplaces (by omega)
  refine ⟨hbound, ?_⟩
  rw [ofDecimal_eq _ hdigits (places_le_exact hplaces),
    roundPlaces_eq_ofQuotient hplaces (isFinite_steadied_of_units_le places hx hunits)]
  rfl

/-- A decimal of so many places, as it is read. -/
theorem ofDecimal_spec (negative : Bool) (hplaces : places ≤ maxPlaces)
    (hdigits : digits ≤ 1000 * 10 ^ places) :
    (ofDecimal negative digits (-places)).isFinite ∧
      (ofDecimal negative digits (-places)).isNegative = negative ∧
      (ofDecimal negative digits (-places)).units = readHalves places (2 * digits) := by
  have hfew : digits < 10 ^ 15 := few_digits hplaces (by omega)
  obtain ⟨hfinite, hsign, hunits⟩ := units_ofDecimal negative hfew (places_le_exact hplaces)
  refine ⟨hfinite, hsign, hunits.trans ?_⟩
  rw [readHalves, Nat.mul_assoc, Nat.mul_comm 2, Nat.mul_comm 2]
  exact (roundUnits_mul_mul (Nat.pow_pos (by decide)) (by decide)).symm

/-- Decimals of so many places are left alone. -/
theorem roundPlaces_ofDecimal (negative : Bool) (hplaces : places ≤ maxPlaces)
    (hdigits : digits ≤ 1000 * 10 ^ places) :
    roundPlaces places (.ofDecimal negative digits (-places)) =
      .ofDecimal negative digits (-places) := by
  obtain ⟨hfinite, hsign, hunits⟩ := ofDecimal_spec negative hplaces hdigits
  have hle := readHalves_le (show 2 * digits ≤ 2000 * 10 ^ places by omega)
  rw [(roundPlaces_eq_ofDecimal hplaces hfinite (hunits.trans_le hle)).2, hsign, hunits,
    roundedPlaces_readHalves hplaces hdigits]

/-- So rounding a second time changes nothing. -/
theorem roundPlaces_roundPlaces (hplaces : places ≤ maxPlaces) (hx : x.isFinite)
    (hunits : x.units ≤ 1000 * unitsPerOne) :
    roundPlaces places (roundPlaces places x) = roundPlaces places x := by
  obtain ⟨hbound, hround⟩ := roundPlaces_eq_ofDecimal hplaces hx hunits
  rw [hround, roundPlaces_ofDecimal _ hplaces hbound]

end RoundingPolicy

end CourseAdmission
