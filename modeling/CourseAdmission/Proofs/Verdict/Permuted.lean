import CourseAdmission.Proofs.Criteria.Demand
import CourseAdmission.Proofs.ExactSum.Permuted
import CourseAdmission.Proofs.Results.Growth
import CourseAdmission.Proofs.RoundingPolicy
import CourseAdmission.Proofs.Verdict.Evaluate

/-!
A verdict does not depend on the order in which the results come.

Only the sign of a zero may differ, which no comparison sees, and the order in which assignments out
of range are listed.
-/

namespace CourseAdmission

open Binary64 ExactSum

variable {results results' : List AssignmentResult}

/-- Aggregates of the same results in some order. -/
structure TypeAggregate.Alike (a b : TypeAggregate) : Prop where
  type : a.type = b.type
  count : a.count = b.count
  passed : a.passed = b.passed
  average : a.average.Alike b.average
  passedPercent : a.passedPercent = b.passedPercent
  outOfRange : a.outOfRange.Perm b.outOfRange

theorem TypeAggregate.alike_mean_of_perm {percents percents' : List Binary64}
    (h : percents.Perm percents')
    (hroom : 2 * magnitude ((percents.filter isFinite).map signedUnits) < unitLimit) :
    (mean percents).Alike (mean percents') := by
  rw [mean, mean, h.isEmpty_eq, h.length_eq]
  split
  case isTrue => exact .refl _
  case isFalse => exact (alike_total_of_perm h hroom).div _

theorem alike_ofResults_of_perm (h : results.Perm results')
    (hroom : 2 * absoluteSum results < unitLimit) (type : AssignmentType) :
    (TypeAggregate.ofResults results type).Alike (TypeAggregate.ofResults results' type) := by
  have hown : (TypeAggregate.matching results type).Perm (TypeAggregate.matching results' type) :=
    h.filter _
  have hownRoom := absoluteSum_matching_le results type
  rw [absoluteSum] at hownRoom
  refine ⟨rfl, hown.length_eq, hown.countP_eq _, ?_, ?_, (hown.filter _).map _⟩
  · exact TypeAggregate.alike_mean_of_perm (hown.map _) (by omega)
  · change percentOf _ _ = percentOf _ _
    rw [hown.length_eq, hown.countP_eq]

/-- The same numbers, except that an average may differ in the sign of a zero. -/
structure OverallDetails.Alike (d d' : OverallDetails) : Prop where
  count : d.count = d'.count
  average : d.average.Alike d'.average
  rounding : d.rounding = d'.rounding
  rounded : d.rounded.Alike d'.rounded
  required : d.required = d'.required

/-- The same numbers, except that an average may differ in the sign of a zero. -/
structure PassedShareDetails.Alike (d d' : PassedShareDetails) : Prop where
  count : d.count = d'.count
  passedCount : d.passedCount = d'.passedCount
  average : d.average.Alike d'.average
  averageRounding : d.averageRounding = d'.averageRounding
  averageRounded : d.averageRounded.Alike d'.averageRounded
  averageRequired : d.averageRequired = d'.averageRequired
  averageMet : d.averageMet = d'.averageMet
  share : d.share = d'.share
  shareRounding : d.shareRounding = d'.shareRounding
  shareRounded : d.shareRounded = d'.shareRounded
  shareRequired : d.shareRequired = d'.shareRequired
  shareMet : d.shareMet = d'.shareMet

/-- Details of the same kind with alike numbers. -/
def RuleDetails.Alike : RuleDetails → RuleDetails → Prop
  | .overall d, .overall d' => d.Alike d'
  | .passedShare d, .passedShare d' => d.Alike d'
  | _, _ => False

/-- The same warning, which may list its assignments in another order. -/
def DataWarning.Alike : DataWarning → DataWarning → Prop
  | .noResults type, .noResults type' => type = type'
  | .outOfRange ids, .outOfRange ids' => ids.Perm ids'
  | _, _ => False

/-- The same outcome of the same rule. -/
structure RuleResult.Alike (r r' : RuleResult) : Prop where
  index : r.index = r'.index
  kind : r.kind = r'.kind
  type : r.type = r'.type
  passed : r.passed = r'.passed
  details : r.details.Alike r'.details
  warnings : List.Forall₂ DataWarning.Alike r.warnings r'.warnings

/-- The same decision for the same reasons. -/
structure Verdict.Alike (v v' : Verdict) : Prop where
  admitted : v.admitted = v'.admitted
  results : List.Forall₂ RuleResult.Alike v.results v'.results

theorem TypeAggregate.Alike.warnings {a b : TypeAggregate} (h : a.Alike b) :
    List.Forall₂ DataWarning.Alike a.warnings b.warnings := by
  rw [TypeAggregate.warnings, TypeAggregate.warnings, hasData, hasData, h.count,
    h.outOfRange.isEmpty_eq]
  apply List.rel_append
  · split
    case isTrue => exact .nil
    case isFalse => exact .cons h.type .nil
  · split
    case isTrue => exact .nil
    case isFalse => exact .cons h.outOfRange .nil

/-- A rule says the same about alike aggregates. -/
theorem Rule.alike_result (rule : Rule) (place : Nat) {a b : TypeAggregate} (h : a.Alike b) :
    (rule.result place a).Alike (rule.result place b) := by
  cases rule with
  | overall type average =>
    have hholds := average.holds_eq_of_alike h.average
    refine ⟨rfl, rfl, rfl, hholds, ⟨h.count, h.average, rfl, ?_, rfl⟩, h.warnings⟩
    exact RoundingPolicy.alike_apply average.rounding h.average
  | passedShare type average share =>
    have hholds := average.holds_eq_of_alike h.average
    have hshare := h.passedPercent
    refine ⟨rfl, rfl, rfl, ?_, ⟨h.count, h.passed, h.average, rfl, ?_, rfl, hholds, hshare, rfl, ?_,
      rfl, ?_⟩, h.warnings⟩
    · change (_ && _) = (_ && _)
      rw [hholds, hshare]
    · exact RoundingPolicy.alike_apply average.rounding h.average
    · exact congrArg share.rounded hshare
    · exact congrArg share.holds hshare

theorem all_passed_eq {outcomes outcomes' : List RuleResult}
    (h : List.Forall₂ RuleResult.Alike outcomes outcomes') :
    outcomes.all (·.passed) = outcomes'.all (·.passed) := by
  induction h with
  | nil => rfl
  | cons hfirst _ ih => rw [List.all_cons, List.all_cons, hfirst.passed, ih]

/-- Let the absolute values of the finite percentages sum up to less than `2 ^ 1023`; others may be
    among them. In whatever order the results come, the decision, its reasons and its numbers are
    the same, and so are the warnings up to the order of the assignments they list. -/
theorem Criteria.evaluate_of_perm (criteria : Criteria) (h : results.Perm results')
    (hroom : 2 * absoluteSum results < unitLimit) :
    (criteria.evaluate results).Alike (criteria.evaluate results') := by
  have hresults : List.Forall₂ RuleResult.Alike (criteria.evaluateUncached results).results
      (criteria.evaluateUncached results').results := by
    rw [evaluateUncached, evaluateUncached]
    dsimp only
    rw [List.forall₂_map_left_iff, List.forall₂_map_right_iff, List.forall₂_same]
    rintro ⟨rule, place⟩ -
    exact rule.alike_result place (alike_ofResults_of_perm h hroom rule.type)
  rw [evaluate_eq, evaluate_eq]
  exact ⟨all_passed_eq hresults, hresults⟩

/-- Results that come in another order, an infinite percentage among them. -/
theorem evaluate_of_perm_rotated :
    let criteria : Criteria :=
      ⟨[.overall .homework ⟨50, .decimals 1, isPercent_fifty, by decide⟩]⟩
    let first : AssignmentResult := ⟨"a", .homework, 70, true⟩
    let second : AssignmentResult := ⟨"b", .homework, .infinite false, true⟩
    let third : AssignmentResult := ⟨"c", .homework, 120, true⟩
    (criteria.evaluate [first, second, third]).Alike (criteria.evaluate [third, first, second]) :=
  Criteria.evaluate_of_perm _ (by decide +kernel) (by decide +kernel)

end CourseAdmission
