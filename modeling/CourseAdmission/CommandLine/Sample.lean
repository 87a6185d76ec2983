import CourseAdmission.Criteria.Document
import CourseAdmission.Text.Lines
import CourseAdmission.Verdict.Evaluate

/-!
A program that shows a course configuration at work on two students.
-/

namespace CourseAdmission.CommandLine.Sample

def configuration : String :=
  Text.ofLines [
    "\x7b",
    "  \"id\": 4711,",
    "  \"admissionCriteria\": \x7b",
    "    \"rules\": [",
    "      \x7b",
    "        \"type\": \"REQUIRED_PERCENT_OVERALL\",",
    "        \"assignmentType\": \"HOMEWORK\",",
    "        \"requiredPercent\": 70,",
    "        \"achievedPercentRounding\": \x7b \"type\": \"DOWN_NEAREST_INTEGER\" \x7d",
    "      \x7d,",
    "      \x7b",
    "        \"type\": \"PASSED_X_PERCENT_WITH_AT_LEAST_Y_PERCENT\",",
    "        \"assignmentType\": \"TESTAT\",",
    "        \"requiredPercent\": 50,",
    "        \"achievedPercentRounding\": \x7b \"type\": \"NONE\" \x7d,",
    "        \"passedAssignmentsPercent\": 50,",
    "        \"passedAssignmentsRounding\": \x7b \"type\": \"UP_NEAREST_INTEGER\" \x7d",
    "      \x7d",
    "    ]",
    "  \x7d",
    "\x7d"]

/-- A percentage in tenths. -/
def tenths (n : Nat) : Binary64 := Binary64.ofDecimal false n (-1)

/-- The mean of the first student's homework is `70`, which only an exact sum shows. -/
def students : List StudentResults := [
  ⟨"alice", [⟨"hw1", .homework, tenths 583, false⟩, ⟨"hw2", .homework, tenths 701, true⟩,
    ⟨"hw3", .homework, tenths 816, true⟩, ⟨"t1", .testat, 90, true⟩]⟩,
  ⟨"bob", [⟨"hw1", .homework, 95, true⟩]⟩]

def studentLines (criteria : Criteria) (student : StudentResults) : List String :=
  let verdict := criteria.evaluate student.results
  ["", student.id ++ ": " ++ if verdict.admitted then "ADMITTED" else "DENIED"] ++
    verdict.results.map (fun result => "  " ++ result.summary) ++
    verdict.warnings.map fun warning => "  warning: " ++ warning.message

/-- What the program prints. -/
def lines : Except CriteriaError (List String) := do
  let config ← CourseConfig.ofJson configuration
  let criteria := config.effectiveCriteria
  let size := toString criteria.size
  return ("Course " ++ config.id.getD "?" ++ ": " ++ size ++ " admission rules") ::
    students.flatMap (studentLines criteria)

end CourseAdmission.CommandLine.Sample
