import CourseAdmission.Proofs.Criteria.Lint
import CourseAdmission.Proofs.Verdict.FewPlaces
import CourseAdmission.Proofs.Verdict.Growth

/-!
What the warnings on thresholds of zero promise about verdicts.

Every rounding leaves zero alone, so a threshold of zero is reached by all percentages that are not
negative. A share of passed results is never negative, but an average may be.
-/

namespace CourseAdmission

open Binary64 RoundingPolicy

variable {x : Binary64} {results : List AssignmentResult} {type : AssignmentType}

theorem RoundingPolicy.apply_zero (policy : RoundingPolicy) : policy.apply 0 = 0 := by
  cases policy with
  | none => rfl
  | up => exact keepsSign_ceil.map_zero
  | down => exact keepsSign_floor.map_zero
  | decimals places =>
    have hscale := (keepsSign_mul_powTen (min_places_le places)).map_zero
    have htie := (keepsSign_mul_powTen tiePlaces_le).map_zero
    have hnearest := keepsSign_nearest.map_zero
    have hback := (keepsSign_div_powTen tiePlaces_le).map_zero
    have hsteadied : steadied places 0 = 0 := by rw [steadied, hscale, htie, hnearest, hback]
    rw [apply, roundPlaces_eq, hsteadied, if_pos isFinite_zero, hnearest]
    exact (keepsSign_div_powTen (min_places_le places)).map_zero

theorem Binary64.neg_one_spec : (-1 : Binary64) ≤ -1 ∧ ¬(0 : Binary64) ≤ -1 := by
  obtain ⟨hfinite, hvalue⟩ := ofNat_spec (n := 1) (by decide)
  have hnegative : (-ofNat 1).isFinite := (isFinite_neg _).trans hfinite
  have hone := unitsPerOne_pos
  refine ⟨(le_iff hnegative hnegative).2 (Int.le_refl _), ?_⟩
  change ¬0 ≤ -ofNat 1
  rw [le_iff isFinite_zero hnegative, signedUnits_zero, signedUnits_neg, hvalue]
  omega

namespace Demand

variable {demand : Demand}

/-- A threshold of zero is reached by what is not negative. -/
theorem holds_of_nonneg (hzero : (demand.required == 0) = true) (hx : 0 ≤ x) :
    demand.holds x = true := by
  refine holds_of_le hx ?_
  rw [holds, rounded, apply_zero, decide_eq_true_iff]
  exact (beq_iff_le_le.1 hzero).1

/-- No threshold is reached by what is undefined or a whole percent below zero. -/
theorem holds_eq_false (demand : Demand) (hx : x = .nan ∨ x ≤ -1) : demand.holds x = false := by
  rw [Bool.eq_false_iff]
  intro hholds
  rcases hx with rfl | hle
  · cases (demand.holds_iff_of_not_isFinite not_isFinite_nan).1 hholds
  · have hminus := holds_of_le hle hholds
    have hround : demand.rounding.apply (-1) = -1 := (apply_ofNat demand.allowed (by decide)).2
    rw [holds, rounded, hround, decide_eq_true_iff] at hminus
    exact neg_one_spec.2 (Binary64.le_trans demand.isPercent.1 hminus)

end Demand

theorem passedPercent_nonneg (hlength : results.length < Word.limit 64) (type : AssignmentType) :
    0 ≤ (TypeAggregate.ofResults results type).passedPercent :=
  percentOf_nonneg _ (length_matching_lt hlength type)

/-- A result that is one percent below zero. -/
def belowZero (type : AssignmentType) : List AssignmentResult := [⟨"a", type, -1, true⟩]

theorem average_belowZero (type : AssignmentType) :
    (TypeAggregate.ofResults (belowZero type) type).average = -1 := by
  cases type <;> decide +kernel

/-- The numbers behind the outcome of a rule with two conditions. -/
def RuleDetails.passedShare? : RuleDetails → Option PassedShareDetails
  | .overall _ => none
  | .passedShare details => some details

namespace Verdict

/-- The numbers behind the rule at a place, if it has two conditions. -/
def passedShareAt (verdict : Verdict) (place : Nat) : Option PassedShareDetails :=
  verdict.results[place]?.bind (·.details.passedShare?)

/-- Whether the condition on the average was met, where a rule has two conditions. -/
def averageMetAt (verdict : Verdict) (place : Nat) : Option Bool :=
  (verdict.passedShareAt place).map (·.averageMet)

/-- Whether the condition on the share of passed results was met. -/
def shareMetAt (verdict : Verdict) (place : Nat) : Option Bool :=
  (verdict.passedShareAt place).map (·.shareMet)

end Verdict

namespace Criteria

variable {criteria : Criteria} {place : Nat} {average share : Demand}

theorem averageMetAt_evaluate (results : List AssignmentResult)
    (hrule : criteria.rules[place]? = some (.passedShare type average share)) :
    (criteria.evaluate results).averageMetAt place =
      some (average.holds (TypeAggregate.ofResults results type).average) := by
  rw [Verdict.averageMetAt, Verdict.passedShareAt, getElem?_results_evaluate, hrule]
  rfl

theorem shareMetAt_evaluate (results : List AssignmentResult)
    (hrule : criteria.rules[place]? = some (.passedShare type average share)) :
    (criteria.evaluate results).shareMetAt place =
      some (share.holds (TypeAggregate.ofResults results type).passedPercent) := by
  rw [Verdict.shareMetAt, Verdict.passedShareAt, getElem?_results_evaluate, hrule]
  rfl

/-- Each rule with a threshold of zero, of whatever sign, is warned about in the words for its kind
    and condition, and no other rule is. What they promise of an overall rule is true, and so is
    what they promise of the share of passed results, as long as the results can be counted. The
    condition on the average does not always hold, although they say so: it holds whenever the
    average is not negative, as with an overall rule, and fails whenever the average is undefined or
    at least one percent below zero. -/
theorem flags_zeroThreshold (criteria : Criteria) (place : Nat) :
    (criteria.Flags place anyAverageText ↔ ∃ type average,
        criteria.rules[place]? = some (.overall type average) ∧ (average.required == 0) = true) ∧
      (criteria.Flags place averageHoldsText ↔ ∃ type average share,
        criteria.rules[place]? = some (.passedShare type average share) ∧
          (average.required == 0) = true) ∧
      (criteria.Flags place shareHoldsText ↔ ∃ type average share,
        criteria.rules[place]? = some (.passedShare type average share) ∧
          (share.required == 0) = true) ∧
      (criteria.Flags place anyAverageText → ∃ rule, criteria.rules[place]? = some rule ∧
        ∀ results, 0 ≤ (TypeAggregate.ofResults results rule.type).average →
          (criteria.evaluate results).passedAt place = some true) ∧
      (criteria.Flags place averageHoldsText → ∃ rule, criteria.rules[place]? = some rule ∧
        (∀ results, let average := (TypeAggregate.ofResults results rule.type).average
          (0 ≤ average → (criteria.evaluate results).averageMetAt place = some true) ∧
            (average = .nan ∨ average ≤ -1 →
              (criteria.evaluate results).averageMetAt place = some false)) ∧
        ∃ results, (criteria.evaluate results).averageMetAt place = some false) ∧
      (criteria.Flags place shareHoldsText → ∀ results : List AssignmentResult,
        results.length < Word.limit 64 →
          (criteria.evaluate results).shareMetAt place = some true) := by
  refine ⟨flags_anyAverageText_iff, flags_averageHoldsText_iff, flags_shareHoldsText_iff,
    fun hflag => ?_, fun hflag => ?_, fun hflag results hlength => ?_⟩
  · obtain ⟨type, average, hrule, hzero⟩ := flags_anyAverageText_iff.1 hflag
    refine ⟨_, hrule, fun results haverage => ?_⟩
    exact (passedAt_overall hrule).trans (congrArg some (Demand.holds_of_nonneg hzero haverage))
  · obtain ⟨type, average, share, hrule, hzero⟩ := flags_averageHoldsText_iff.1 hflag
    refine ⟨_, hrule, fun results => ⟨fun haverage => ?_, fun haverage => ?_⟩, belowZero type, ?_⟩
    · have hholds := Demand.holds_of_nonneg hzero haverage
      exact (averageMetAt_evaluate results hrule).trans (congrArg some hholds)
    · have hmisses := average.holds_eq_false haverage
      exact (averageMetAt_evaluate results hrule).trans (congrArg some hmisses)
    · rw [averageMetAt_evaluate _ hrule, average_belowZero,
        average.holds_eq_false (.inr neg_one_spec.1)]
  · obtain ⟨type, average, share, hrule, hzero⟩ := flags_shareHoldsText_iff.1 hflag
    have hshare := passedPercent_nonneg hlength type
    rw [shareMetAt_evaluate results hrule, Demand.holds_of_nonneg hzero hshare]

end Criteria

/-- Nothing is asked of the homework, with thresholds of both signs. -/
def nothingOfHomework : Criteria :=
  ⟨[.passedShare .homework ⟨0, .none, isPercent_zero, trivial⟩
    ⟨-0, .decimals 1, by decide +kernel, by decide⟩]⟩

/-- The warning on the average is wrong about a student with `-50` percent. -/
theorem flags_zeroThreshold_nothingOfHomework :
    nothingOfHomework.Flags 0 averageHoldsText ∧ nothingOfHomework.Flags 0 shareHoldsText ∧
      (nothingOfHomework.evaluate [⟨"a", .homework, -50, true⟩]).averageMetAt 0 = some false ∧
      (nothingOfHomework.evaluate [⟨"a", .homework, -50, true⟩]).shareMetAt 0 = some true := by
  obtain ⟨-, haverageIff, hshareIff, -, haverage, hshare⟩ := nothingOfHomework.flags_zeroThreshold 0
  have hflag := haverageIff.2 ⟨_, _, _, rfl, by decide +kernel⟩
  have hflag' := hshareIff.2 ⟨_, _, _, rfl, by decide +kernel⟩
  obtain ⟨rule, hrule, hmet, -⟩ := haverage hflag
  obtain rfl := Option.some.inj hrule
  exact ⟨hflag, hflag', (hmet _).2 (.inr (by decide +kernel)), hshare hflag' _ (by decide)⟩

end CourseAdmission
