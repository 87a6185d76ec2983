import CourseAdmission.Proofs.Binary64.Quotient
import CourseAdmission.Proofs.ExactSum.Total
import CourseAdmission.Results.Aggregate

/-!
The mean of finite percentages: their exact sum rounded once, divided by their number and rounded
once more.
-/

namespace CourseAdmission

namespace Binary64

/-- A count is a positive number, exact up to `2 ^ 53`. -/
theorem ofNat_count_spec {n : Nat} (hn : n < Word.limit 64) :
    (ofNat n).isFinite ∧ (ofNat n).isNegative = false ∧
      (ofNat n).units = roundUnits (n * unitsPerOne) 1 := by
  apply ofQuotient_spec
  obtain ⟨k, hk, hlimit⟩ := unitLimit_eq_mul_unitsPerOne
  obtain ⟨l, -, hl⟩ := unitsPerOne_eq_pow
  have hword : n ≤ 2 ^ 64 := hn.le
  have hle : roundUnits (n * unitsPerOne) 1 ≤ 2 ^ 64 * unitsPerOne := by
    apply roundUnits_le_of_le _ (by decide)
    · rw [Nat.mul_one]
      exact Nat.mul_le_mul_right _ hword
    · rw [hl, ← Nat.pow_add]
      exact onGrid_two_pow _
  rw [hlimit]
  apply hle.trans_lt
  apply Nat.mul_lt_mul_of_pos_right _ unitsPerOne_pos
  exact Nat.pow_lt_pow_right (by decide) (by omega)

theorem unitsPerOne_le_units_ofNat {n : Nat} (hpos : 0 < n) (hn : n < Word.limit 64) :
    unitsPerOne ≤ (ofNat n).units := by
  rw [(ofNat_count_spec hn).2.2]
  apply le_roundUnits_of_le _ (by decide)
  · rw [Nat.mul_one]
    exact Nat.le_mul_of_pos_left _ hpos
  · simpa using onGrid_mul_unitsPerOne (n := 1) (by decide)

/-- As many percentages as can be counted sum up to less than half of what the doubles hold. -/
theorem two_mul_lt_unitLimit {sum count : Nat} (hsum : sum ≤ count * (100 * unitsPerOne))
    (hcount : count < Word.limit 64) : 2 * sum < unitLimit := by
  obtain ⟨l, hl, hlimit⟩ := unitLimit_eq_mul_unitsPerOne
  have hpow : 2 ^ 64 * 256 ≤ 2 ^ l := by
    rw [← Nat.pow_add 2 64 8]
    exact Nat.pow_le_pow_right (by decide) (by omega)
  have hword : count < 2 ^ 64 := hcount
  rw [hlimit]
  calc 2 * sum ≤ 2 * (count * (100 * unitsPerOne)) := Nat.mul_le_mul_left 2 hsum
    _ = 200 * count * unitsPerOne := by ring
    _ < 2 ^ l * unitsPerOne := Nat.mul_lt_mul_of_pos_right (by omega) unitsPerOne_pos

end Binary64

namespace TypeAggregate

open Binary64 ExactSum

/-- The mean of numbers that sum up to at most half of what the doubles hold. -/
theorem mean_spec (percents : List Binary64) (hne : percents ≠ [])
    (hfinite : ∀ p ∈ percents, p.isFinite)
    (hroom : 2 * magnitude (percents.map signedUnits) < unitLimit)
    (hlength : percents.length < Word.limit 64) :
    let total := roundInt (percents.map signedUnits).sum
    let mean := roundUnits (total.natAbs * unitsPerOne) (ofNat percents.length).units
    (TypeAggregate.mean percents).isFinite ∧
      (TypeAggregate.mean percents).signedUnits = if total < 0 then -(mean : Int) else mean := by
  dsimp only
  obtain ⟨htotal, htotalValue⟩ := (holds_ofList hfinite hroom).total hroom
  obtain ⟨hcount, hsign, -⟩ := ofNat_count_spec hlength
  have hone := unitsPerOne_le_units_ofNat (List.length_pos_iff.2 hne) hlength
  have hpos := unitsPerOne_pos
  have htotalUnits : (ofList percents).total.units =
      (roundInt (percents.map signedUnits).sum).natAbs := by
    rw [← natAbs_signedUnits, htotalValue]
  have hquotient : roundUnits ((ofList percents).total.units * unitsPerOne)
      (ofNat percents.length).units ≤ (ofList percents).total.units := by
    apply roundUnits_le_of_le _ (by omega) (Nat.mul_le_mul_left _ hone)
    rw [← natAbs_signedUnits]
    exact onGrid_signedUnits _
  have hlimit := natAbs_signedUnits_lt (ofList percents).total
  rw [natAbs_signedUnits] at hlimit
  have hdiv := div_spec htotal hcount (by rw [signedUnits_eq, hsign, if_neg (by decide)]; omega)
    (hquotient.trans_lt hlimit)
  rw [htotalUnits, htotalValue] at hdiv
  rw [TypeAggregate.mean, if_neg (by simpa using hne)]
  exact hdiv

/-- The mean of numbers with a sum that is not negative. -/
theorem mean_spec_of_sum_eq (percents : List Binary64) {sum : Nat} (hne : percents ≠ [])
    (hfinite : ∀ p ∈ percents, p.isFinite)
    (hroom : 2 * magnitude (percents.map signedUnits) < unitLimit)
    (hlength : percents.length < Word.limit 64) (hsum : (percents.map signedUnits).sum = sum) :
    (TypeAggregate.mean percents).isFinite ∧
      (TypeAggregate.mean percents).signedUnits =
        roundUnits (roundUnits sum 1 * unitsPerOne) (ofNat percents.length).units := by
  have hmean := mean_spec percents hne hfinite hroom hlength
  have htotal : roundInt (sum : Int) = (roundUnits sum 1 : Nat) := by
    rw [roundInt, if_neg (by omega), Int.natAbs_natCast]
  rw [hsum, htotal] at hmean
  dsimp only at hmean
  rwa [if_neg (by omega), Int.natAbs_natCast] at hmean

end TypeAggregate

end CourseAdmission
