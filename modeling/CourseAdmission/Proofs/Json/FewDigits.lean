import CourseAdmission.Proofs.Decimal.FewDigits
import CourseAdmission.Proofs.Decimal.Plain
import CourseAdmission.Proofs.Json.ReadBack

/-!
Decimals of at most 15 digits and 22 places are read as their nearest double.

Their digits and the power of ten below them are doubles, so the quick rule rounds once. With more
places the power of ten is rounded too.
-/

namespace CourseAdmission

open Json Numeral

open Binary64

namespace Json

theorem shrink_ofNat {digits places : Nat} (hdigits : digits ≤ significandLimit)
    (hplaces : places ≤ 22) :
    shrink (ofNat digits) places = ofQuotient false (digits * unitsPerOne) (10 ^ places) := by
  obtain ⟨hfinite, hsign, hunits⟩ := powTen_exact hplaces
  have hten : 0 < 10 ^ places := Nat.pow_pos (by decide)
  have hpos : (powTen places).units ≠ 0 := by
    rw [hunits]
    exact (Nat.mul_pos hten unitsPerOne_pos).ne'
  rw [shrink, if_pos (hplaces.trans (by decide)),
    div_eq_ofQuotient (ofNat_spec hdigits).1 hfinite hpos, hsign, hunits, ofNat_eq hdigits]
  exact ofQuotient_congr false (roundUnits_mul_mul hten unitsPerOne_pos)

/-- Digits with some of them behind the point are read as their nearest double. -/
theorem scale_exact {digits places : Nat} (hdigits : digits < 10 ^ 15) (hpos : 0 < places)
    (hplaces : places ≤ 22) :
    scale digits (-places) = some (ofDecimal false digits (-places)) := by
  rw [scale_of_neg (by omega), Int.natAbs_neg, Int.natAbs_natCast,
    ofDecimal_eq false hdigits hplaces, shrink_ofNat (hdigits.le.trans (by decide)) hplaces]

/-- The digits that the double of such a decimal is written with stand for the decimal. -/
theorem readParts_roundUnits {digits places : Nat} (hdigits : digits < 10 ^ 15)
    (hplaces : places ≤ 22) {d : Decimal}
    (hd : d = Decimal.shortest .even (roundUnits (digits * unitsPerOne) (10 ^ places)))
    (hle : roundUnits (digits * unitsPerOne) (10 ^ places) ≤ 100 * unitsPerOne) :
    ∃ behind : Nat, 0 < behind ∧ behind ≤ 22 ∧ (readParts d).2 = -behind ∧
      (readParts d).1 ≤ significandLimit ∧
      (readParts d).1 * 10 ^ places = digits * 10 ^ behind := by
  obtain ⟨written, hwrittenPos, -, hwritten, -, hhundred⟩ :=
    readParts_of_le_hundred (onGrid_roundUnits _ _) hle
  rcases Nat.eq_zero_or_pos digits with rfl | hpos
  · have hzero : d = ⟨0, 0⟩ := by
      rw [hd, Nat.zero_mul, roundUnits_zero]
      rfl
    rw [hzero]
    exact ⟨1, by decide, by decide, rfl, by decide, by rw [Nat.zero_mul]; exact Nat.zero_mul _⟩
  obtain ⟨zeros, hexponent, hvalue⟩ := Decimal.shortest_roundUnits .even hpos hdigits hplaces
    (hle.trans_lt (mul_unitsPerOne_lt (n := 100) (by decide)))
  rw [← hd] at hexponent hvalue hwritten hhundred
  by_cases hwhole : layout.positional d.leadingPlace = true ∧ 0 ≤ d.exponent
  · have hparts : readParts d = (d.digits * 10 ^ (d.exponent.toNat + 1), -1) := if_pos hwhole
    rw [hparts] at hwritten hhundred ⊢
    obtain rfl : written = 1 := by
      dsimp only at hwritten
      omega
    refine ⟨1, by decide, by decide, rfl, hhundred.trans (by decide), ?_⟩
    have hsplit : 10 ^ (d.exponent.toNat + 1) * 10 ^ places = 10 ^ zeros * 10 ^ 1 := by
      rw [← Nat.pow_add, ← Nat.pow_add]
      congr 1
      omega
    rw [Nat.mul_assoc, hsplit, ← Nat.mul_assoc, hvalue]
  · have hparts : readParts d = (d.digits, d.exponent) := if_neg hwhole
    rw [hparts] at hwritten hhundred ⊢
    dsimp only at hwritten hhundred ⊢
    refine ⟨written, hwrittenPos, by omega, hwritten, ?_, ?_⟩
    · calc d.digits ≤ d.digits * 10 ^ zeros := Nat.le_mul_of_pos_right _ (Nat.pow_pos (by decide))
        _ ≤ significandLimit := by rw [hvalue]; exact hdigits.le.trans (by decide)
    · have hsplit : 10 ^ places = 10 ^ zeros * 10 ^ written := by
        rw [← Nat.pow_add]
        congr 1
        omega
      rw [hsplit, ← Nat.mul_assoc, hvalue]

end Json

namespace Binary64

/-- Percentages of at most 15 digits and 22 places are read back unchanged. -/
theorem readBack_ofDecimal {digits places : Nat} (hdigits : digits < 10 ^ 15)
    (hplaces : places ≤ 22) (hpercent : (ofDecimal false digits (-places)).IsPercent) :
    (ofDecimal false digits (-places)).readBack = some (ofDecimal false digits (-places)) := by
  obtain ⟨hfinite, hpos, hle⟩ := isPercent_iff.1 hpercent
  rw [ofDecimal_eq false hdigits hplaces] at *
  obtain ⟨-, -, hunits⟩ := ofQuotient_spec false (isFinite_ofQuotient_iff.1 hfinite)
  have hunits' := natAbs_signedUnits (ofQuotient false (digits * unitsPerOne) (10 ^ places))
  obtain ⟨behind, hbehindPos, hbehind, hpower, hfits, hvalue⟩ :=
    readParts_roundUnits hdigits hplaces rfl (by omega)
  rw [readBack, hunits]
  rw [hpower, scale_of_neg (by omega), Int.natAbs_neg, Int.natAbs_natCast,
    shrink_ofNat hfits hbehind, Option.some_inj]
  apply ofQuotient_congr
  have hten (n : Nat) : 0 < 10 ^ n := Nat.pow_pos (by decide)
  apply roundUnits_congr (hten behind) (hten places)
  rw [Nat.mul_right_comm, hvalue, Nat.mul_right_comm]

end Binary64

end CourseAdmission
