import CourseAdmission.Report.Uuid
import CourseAdmission.Time.Instant
import CourseAdmission.Verdict.Evaluate

/-!
The report on a course: the verdict on each student, and counts over them.
-/

namespace CourseAdmission

structure StudentVerdict where
  id : String
  verdict : Verdict
  deriving DecidableEq, BEq

/-- How many students pass and fail one rule. -/
structure RuleTally where
  index : Nat
  kind : RuleKind
  type : AssignmentType
  passed : Nat
  failed : Nat
  deriving DecidableEq

structure Summary where
  total : Nat
  admitted : Nat
  denied : Nat
  /-- Students with a warning on their data. -/
  withWarnings : Nat
  /-- The tallies of the rules in their order. -/
  rules : List RuleTally
  deriving DecidableEq

namespace Summary

/-- How many students' results at the place of a rule have this outcome. Results at places without a
    rule count nowhere. -/
def countOutcome (students : List StudentVerdict) (index : Nat) (passed : Bool) : Nat :=
  (students.flatMap (·.verdict.results)).countP fun r => r.index == index && r.passed == passed

def tally (students : List StudentVerdict) (index : Nat) (rule : Rule) : RuleTally :=
  { index
    kind := rule.kind
    type := rule.type
    passed := countOutcome students index true
    failed := countOutcome students index false }

/-- The counts over verdicts on the rules of some criteria. -/
def ofVerdicts (criteria : Criteria) (students : List StudentVerdict) : Summary :=
  { total := students.length
    admitted := students.countP (·.verdict.admitted)
    denied := students.length - students.countP (·.verdict.admitted)
    withWarnings := students.countP (·.verdict.hasWarnings)
    rules := criteria.rules.zipIdx.map fun (rule, index) => tally students index rule }

/-- The share of admitted students in percent, zero for an empty course. -/
def admissionRate (summary : Summary) : Binary64 := percentOf summary.admitted summary.total

end Summary

structure Report where
  id : Uuid
  createdAt : Instant
  courseId : String
  /-- The criteria that the students were evaluated against. -/
  criteria : Criteria
  /-- The verdicts in the order of the course's students. -/
  students : List StudentVerdict
  summary : Summary
  /-- How long the evaluation took, in milliseconds. -/
  duration : Nat
  deriving DecidableEq

namespace Report

/-- What a report says about the making of itself. -/
structure Stamp where
  id : Uuid
  createdAt : Instant
  duration : Nat

/-- The report on these verdicts. -/
def ofVerdicts (stamp : Stamp) (courseId : String) (criteria : Criteria)
    (students : List StudentVerdict) : Report :=
  { id := stamp.id
    createdAt := stamp.createdAt
    courseId
    criteria
    students
    summary := Summary.ofVerdicts criteria students
    duration := stamp.duration }

/-- The first entry of a student. -/
def student? (report : Report) (id : String) : Option StudentVerdict :=
  report.students.find? (·.id == id)

end Report

/-- The verdict on one student of a course. -/
def Criteria.evaluateStudent (criteria : Criteria) (student : StudentResults) : StudentVerdict :=
  ⟨student.id, criteria.evaluate student.results⟩

/-- The report on a course, its students evaluated one after the other. -/
def Criteria.evaluateCourse (criteria : Criteria) (stamp : Report.Stamp) (course : CourseResults) :
    Report :=
  .ofVerdicts stamp course.id criteria (course.students.map criteria.evaluateStudent)

end CourseAdmission
