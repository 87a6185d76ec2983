import CourseAdmission.Proofs.RoundingPolicy.Places
import CourseAdmission.Proofs.Verdict.TenthGrades

/-!
Rounding to decimal places and thresholds that are written with so many places.

Such a threshold is left alone by the rounding that the average goes through, so an average that
reaches it still does after rounding.
-/

namespace CourseAdmission

open Binary64 RoundingPolicy

variable {places digits : Nat} {x : Binary64}

/-- A number within a whole distance from zero is finite and so many units away. -/
theorem Binary64.isFinite_of_abs_le {n : Nat} (hn : n ≤ significandLimit) (hx : x.abs ≤ .ofNat n) :
    x.isFinite = true ∧ x.units ≤ n * unitsPerOne := by
  obtain ⟨hfinite, hvalue⟩ := ofNat_spec hn
  cases x with
  | nan => exact absurd rfl (le_iff_place.1 hx).1
  | infinite =>
    rw [eq_infinite_of_le hx] at hfinite
    cases hfinite
  | finite negative units hgrid hlt =>
    rw [le_iff rfl hfinite, hvalue] at hx
    exact ⟨rfl, Int.ofNat_le.1 hx⟩

/-- A decimal may be written with more places than it needs. -/
theorem Binary64.ofDecimal_mul_pow {written : Nat} (negative : Bool) (hwritten : written ≤ places)
    (hplaces : places ≤ maxPlaces) (hdigits : digits ≤ 1000 * 10 ^ written) :
    digits * 10 ^ (places - written) ≤ 1000 * 10 ^ places ∧
      ofDecimal negative (digits * 10 ^ (places - written)) (-places) =
        ofDecimal negative digits (-written) := by
  have hsplit : 10 ^ places = 10 ^ written * 10 ^ (places - written) := by
    rw [← Nat.pow_add, Nat.add_sub_cancel' hwritten]
  have hmore : digits * 10 ^ (places - written) ≤ 1000 * 10 ^ places := by
    rw [hsplit, ← Nat.mul_assoc]
    exact Nat.mul_le_mul_right _ hdigits
  have hexact := places_le_exact hplaces
  have hwritten' := hwritten.trans hplaces
  refine ⟨hmore, ?_⟩
  rw [ofDecimal_eq negative (few_digits hplaces (hmore.trans (by omega))) hexact,
    ofDecimal_eq negative (few_digits hwritten' (hdigits.trans (by omega))) (hwritten.trans hexact)]
  apply ofQuotient_congr
  rw [hsplit, Nat.mul_right_comm]
  exact roundUnits_mul_mul (Nat.pow_pos (by decide)) (Nat.pow_pos (by decide))

/-- Rounding leaves the whole numbers up to a thousand alone, on both sides of zero. -/
theorem RoundingPolicy.apply_ofNat {policy : RoundingPolicy} (hallowed : policy.Allowed) {n : Nat}
    (hn : n ≤ 1000) :
    policy.apply (ofNat n) = ofNat n ∧ policy.apply (-ofNat n) = -ofNat n := by
  have hdigits : n ≤ 1000 * 10 ^ 0 := by omega
  have hdecimal (negative : Bool) :
      ofDecimal negative n (-(0 : Nat)) = ofQuotient negative (n * unitsPerOne) 1 :=
    ofDecimal_eq negative (hn.trans_lt (by decide)) (Nat.zero_le 22)
  have hwhole (negative : Bool) : policy.apply (ofDecimal negative n (-(0 : Nat))) =
      ofDecimal negative n (-(0 : Nat)) := by
    obtain ⟨hfinite, hsign, hunits⟩ := ofDecimal_spec negative (Nat.zero_le maxPlaces) hdigits
    have hexact := readHalves_of_whole 0 n (hn.trans (by decide))
    rw [Nat.pow_zero, Nat.mul_one] at hexact
    have hto (up : Bool) := wholeTo_mul up n unitsPerOne_pos
    cases policy with
    | none => rfl
    | up =>
      rw [apply, keepsSign_ceil.finite _ hfinite, hsign, hunits, hexact, hto, hdecimal]
    | down =>
      rw [apply, keepsSign_floor.finite _ hfinite, hsign, hunits, hexact, hto, hdecimal]
    | decimals places =>
      obtain ⟨hmore, hread⟩ := ofDecimal_mul_pow negative (Nat.zero_le places) hallowed hdigits
      rw [← hread]
      exact roundPlaces_ofDecimal negative hallowed hmore
  have hpositive := hwhole false
  have hnegative := hwhole true
  rw [← neg_ofDecimal] at hnegative
  rw [hdecimal] at hpositive hnegative
  exact ⟨hpositive, hnegative⟩

/-- The threshold is a decimal from 0 to 100, written with at most as many places as percentages
    are rounded to. -/
def Demand.OfPlaces (demand : Demand) (places : Nat) : Prop :=
  demand.rounding = .decimals places ∧ ∃ written digits : Nat, written ≤ places ∧
    digits ≤ 100 * 10 ^ written ∧ (demand.required == .ofDecimal false digits (-written)) = true

/-- What reaches a threshold of so many places reaches it after rounding. -/
theorem Demand.holds_of_required_le {demand : Demand} (hplaces : places ≤ maxPlaces)
    (hdemand : demand.OfPlaces places) (hx : demand.required ≤ x) : demand.holds x = true := by
  obtain ⟨hrounding, written, digits, hwritten, hdigits, hrequired⟩ := hdemand
  obtain ⟨hdigits', hread⟩ := ofDecimal_mul_pow false hwritten hplaces
    (hdigits.trans (Nat.mul_le_mul_right _ (by decide)))
  rw [← hread] at hrequired
  refine holds_of_le hx ?_
  rw [holds_eq_of_alike demand (.inr hrequired), holds, decide_eq_true_iff, rounded, hrounding,
    RoundingPolicy.apply, roundPlaces_ofDecimal false hplaces hdigits']
  exact (beq_iff_le_le.1 hrequired).1

/-- Rounding to at most ten places leaves the decimals of so many places up to a thousand alone, on
    both sides of zero. So on numbers up to a thousand a second rounding changes nothing, and a rule
    whose threshold is written with at most so many places passes from that very average on. -/
theorem RoundingPolicy.apply_decimals_of_places (hplaces : places ≤ maxPlaces) :
    (∀ (negative : Bool) (digits : Nat), digits ≤ 1000 * 10 ^ places →
        (decimals places).apply (.ofDecimal negative digits (-places)) =
          .ofDecimal negative digits (-places)) ∧
      (∀ x : Binary64, x.abs ≤ .ofNat 1000 →
        (decimals places).apply ((decimals places).apply x) = (decimals places).apply x) ∧
      ∀ (criteria : Criteria) (place : Nat) (type : AssignmentType) (average : Demand)
        (results : List AssignmentResult),
        criteria.rules[place]? = some (.overall type average) → average.OfPlaces places →
        average.required ≤ (TypeAggregate.ofResults results type).average →
        (criteria.evaluate results).passedAt place = some true := by
  refine ⟨fun negative digits hdigits => roundPlaces_ofDecimal negative hplaces hdigits,
    fun x hx => ?_, fun criteria place type average results hrule hdemand hreached => ?_⟩
  · obtain ⟨hfinite, hunits⟩ := isFinite_of_abs_le (by decide) hx
    exact roundPlaces_roundPlaces hplaces hfinite hunits
  · rw [passedAt_overall hrule, Demand.holds_of_required_le hplaces hdemand hreached]

/-- An average of exactly `66.67` on a threshold of `66.67`, with two places. -/
theorem apply_decimals_of_two_places :
    (decimals 2).apply (.ofDecimal true 6667 (-2)) = .ofDecimal true 6667 (-2) ∧
      (decimals 2).apply ((decimals 2).apply (.ofDecimal false 66665 (-3))) =
        (decimals 2).apply (.ofDecimal false 66665 (-3)) ∧
      ((⟨[.overall .homework ⟨.ofDecimal false 6667 (-2), .decimals 2, by decide +kernel,
        by decide⟩]⟩ : Criteria).evaluate
          [⟨"a", .homework, .ofDecimal false 6667 (-2), true⟩]).passedAt 0 = some true := by
  obtain ⟨hfixed, htwice, hpassed⟩ := @RoundingPolicy.apply_decimals_of_places
    2 (by decide)
  exact ⟨hfixed true 6667 (by decide), htwice _ (by decide +kernel),
    hpassed _ 0 .homework _ _ rfl ⟨rfl, 2, 6667, by decide, by decide, by decide +kernel⟩
      (by decide +kernel)⟩

end CourseAdmission
