import CourseAdmission.Report.Basic

/-!
Rules that failed by a small margin.
-/

namespace CourseAdmission

/-- The average that a student missed, and the one that the rule requires. -/
structure NearMiss where
  student : String
  rule : Nat
  achieved : Binary64
  required : Binary64
  deriving DecidableEq

/-- The rounded average and the one required, unless the average is met and something else
    failed. -/
def RuleDetails.missedAverage? : RuleDetails → Option (Binary64 × Binary64)
  | .overall d => some (d.rounded, d.required)
  | .passedShare d => if d.averageMet then none else some (d.averageRounded, d.averageRequired)

/-- The near miss of a failed rule. -/
def NearMiss.ofResult? (margin : Binary64) (student : String) (result : RuleResult) :
    Option NearMiss := do
  let (achieved, required) ← result.details.missedAverage?
  if required - achieved ≤ margin then some ⟨student, result.index, achieved, required⟩ else none

/-- The near misses of all students in their order, those of a student in the order of the rules. -/
def Report.nearMisses (report : Report) (margin : Binary64) : List NearMiss :=
  report.students.flatMap fun student =>
    student.verdict.failed.filterMap (NearMiss.ofResult? margin student.id)

end CourseAdmission
