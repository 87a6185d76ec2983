import CourseAdmission.Proofs.Binary64.Nearest
import CourseAdmission.Proofs.Report.Survival
import CourseAdmission.Proofs.Verdict.Evaluate
import CourseAdmission.Report.NearMiss

/-!
The near misses of an evaluated course.

An average that is missed lies below what is required, and their difference, rounded or not, is
positive. So the misses within a margin are those of all misses whose difference is small enough,
and a larger margin only adds to them.
-/

namespace CourseAdmission

namespace Binary64

variable {x y margin : Binary64}

/-- The difference of two finite numbers keeps its sign when it is rounded. -/
theorem place_sub_pos (hx : x.isFinite) (hy : y.isFinite) (hlt : ¬y ≤ x) :
    y - x ≠ .nan ∧ 0 < (y - x).place := by
  have hpos : 0 < y.signedUnits + (-x).signedUnits := by
    rw [le_iff hy hx] at hlt
    rw [signedUnits_neg]
    omega
  change y + -x ≠ .nan ∧ 0 < (y + -x).place
  have hneg : (-x).isFinite = true := by rwa [isFinite_neg]
  generalize -x = x at hpos hneg
  obtain ⟨a, m, _, _, rfl⟩ := exists_eq_finite hy
  obtain ⟨b, n, _, _, rfl⟩ := exists_eq_finite hneg
  rw [finite_add_finite, if_neg hpos.ne', decide_eq_false (by omega)]
  have hlimit := unitLimit_pos
  have hround := roundUnits_pos (Int.natAbs_pos.2 hpos.ne')
  obtain ⟨hne, hplace⟩ := place_ofQuotient false _ 1
  refine ⟨hne, ?_⟩
  rw [hplace, if_neg Bool.false_ne_true, Int.natCast_pos]
  exact lt_min hround hlimit

theorem not_sub_le (hx : x.isFinite) (hy : y.isFinite) (hlt : ¬y ≤ x) (hmargin : margin ≤ 0) :
    ¬y - x ≤ margin := by
  obtain ⟨-, hpos⟩ := place_sub_pos hx hy hlt
  rw [le_iff_place, place_of_isFinite isFinite_zero, signedUnits_zero] at hmargin
  rw [le_iff_place]
  omega

theorem sub_le_infinite (hx : x.isFinite) (hy : y.isFinite) (hlt : ¬y ≤ x) :
    y - x ≤ .infinite false := by
  obtain ⟨hne, -⟩ := place_sub_pos hx hy hlt
  have hbound := natAbs_place_le (y - x)
  rw [le_iff_place, place_infinite_false]
  exact ⟨hne, nofun, by omega⟩

end Binary64

/-- What a rule demands of the average. -/
def Rule.averageDemand : Rule → Demand
  | .overall _ average => average
  | .passedShare _ average _ => average

namespace NearMiss

/-- The average that a student misses at the place of a rule, unless the rule passes or its demand
    on the average is met. -/
def ofRule? (student : String) (results : List AssignmentResult) (rule : Rule) (place : Nat) :
    Option NearMiss :=
  let aggregate := TypeAggregate.ofResults results rule.type
  if (rule.outcome aggregate).passed = false ∧
      rule.averageDemand.holds aggregate.average = false then
    some ⟨student, place, rule.averageDemand.rounded aggregate.average, rule.averageDemand.required⟩
  else none

def isWithin (margin : Binary64) (miss : NearMiss) : Bool :=
  decide (miss.required - miss.achieved ≤ margin)

variable {student : String} {results : List AssignmentResult} {rule : Rule} {place : Nat}
  {margin : Binary64}

/-- A failed result is a near miss as the average that is missed is within the margin. -/
theorem ofResult?_resultOn (margin : Binary64) (student : String) (results : List AssignmentResult)
    (rule : Rule) (place : Nat) :
    (if (!(rule.resultOn results place).passed) = true then
        ofResult? margin student (rule.resultOn results place) else none) =
      (ofRule? student results rule place).filter (·.isWithin margin) := by
  cases rule with
  | overall type average =>
    cases haverage : average.holds (TypeAggregate.ofResults results type).average <;>
      simp [Rule.resultOn, Rule.result, Rule.outcome, Rule.type, Rule.averageDemand, ofResult?,
        ofRule?, RuleDetails.missedAverage?, isWithin, haverage, Option.filter_some]
  | passedShare type average share =>
    cases haverage : average.holds (TypeAggregate.ofResults results type).average <;>
      cases hshare : share.holds (TypeAggregate.ofResults results type).passedPercent <;>
        simp [Rule.resultOn, Rule.result, Rule.outcome, Rule.type, Rule.averageDemand, ofResult?,
          ofRule?, RuleDetails.missedAverage?, isWithin, haverage, hshare, Option.filter_some]

/-- The averages that a student misses, in the order of the rules. -/
def ofStudent (criteria : Criteria) (student : StudentResults) : List NearMiss :=
  criteria.rules.zipIdx.filterMap fun entry => ofRule? student.id student.results entry.1 entry.2

theorem filterMap_failed_evaluate (criteria : Criteria) (student : StudentResults)
    (margin : Binary64) :
    (criteria.evaluate student.results).failed.filterMap (ofResult? margin student.id) =
      (ofStudent criteria student).filter (·.isWithin margin) := by
  rw [Verdict.failed, List.filterMap_filter, Criteria.evaluate_eq, Criteria.evaluateUncached,
    List.filterMap_map, ofStudent, List.filter_filterMap]
  congr 1
  funext entry
  exact ofResult?_resultOn margin student.id student.results entry.1 entry.2

end NearMiss

/-- The near misses of a course are those of all missed averages that are within the margin. -/
theorem Report.nearMisses_evaluateCourse (criteria : Criteria) (stamp : Report.Stamp)
    (course : CourseResults) (margin : Binary64) :
    (criteria.evaluateCourse stamp course).nearMisses margin =
      (course.students.flatMap (NearMiss.ofStudent criteria)).filter (·.isWithin margin) := by
  have hstudents : (criteria.evaluateCourse stamp course).students =
      course.students.map criteria.evaluateStudent := rfl
  rw [Report.nearMisses, hstudents, List.flatMap_map, List.filter_flatMap]
  congr 1
  funext student
  exact NearMiss.filterMap_failed_evaluate criteria student margin

theorem Rule.rounded_mem_doubles (rule : Rule) (aggregate : TypeAggregate) :
    rule.averageDemand.rounded aggregate.average ∈ (rule.outcome aggregate).details.doubles := by
  cases rule <;> simp [averageDemand, outcome, RuleDetails.doubles]

/-- What is required is missed by a positive difference, if both numbers are finite. -/
theorem NearMiss.finite_of_mem {criteria : Criteria} {stamp : Report.Stamp} {course : CourseResults}
    {miss : NearMiss}
    (hfinite : ∀ x ∈ (criteria.evaluateCourse stamp course).doubles, x.isFinite = true)
    (hmiss : miss ∈ course.students.flatMap (NearMiss.ofStudent criteria)) :
    miss.achieved.isFinite = true ∧ miss.required.isFinite = true ∧
      ¬miss.required ≤ miss.achieved := by
  obtain ⟨student, hstudent, hmiss⟩ := List.mem_flatMap.1 hmiss
  obtain ⟨⟨rule, place⟩, hentry, hmiss⟩ := List.mem_filterMap.1 hmiss
  rw [ofRule?] at hmiss
  split at hmiss
  case isFalse => cases hmiss
  case isTrue h =>
    cases hmiss
    refine ⟨?_, rule.averageDemand.isPercent.isFinite, ?_⟩
    · refine hfinite _ (List.mem_append_right _ (List.mem_flatMap.2
        ⟨criteria.evaluateStudent student, List.mem_map_of_mem hstudent, ?_⟩))
      rw [Verdict.doubles, List.mem_flatMap]
      exact ⟨rule.resultOn student.results place, Criteria.mem_results_evaluate_iff.2
        ⟨place, rule, List.mem_zipIdx_iff_getElem?.1 hentry, rfl⟩, rule.rounded_mem_doubles _⟩
    · simpa [Demand.holds] using h.2

end CourseAdmission
