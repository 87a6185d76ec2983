import CourseAdmission.CommandLine.Arguments
import CourseAdmission.CommandLine.Outcome
import CourseAdmission.Verdict.Evaluate

/-!
Runs that answer a question about files: is a student admitted, and what changed between two
reports.
-/

namespace CourseAdmission.CommandLine

def verdictLines (student : String) (verdict : Verdict) : VerdictFormat → List String
  | .text =>
    ("Student " ++ student ++ ": " ++ verdict.summary) :: verdict.explanation.map ("  " ++ ·)
  | .json => [Json.pretty verdict.toNode]

def changeLines (changes : ChangeReport) : ChangeFormat → List String
  | .text => changes.lines
  | .json => [Json.pretty changes.toNode]
  | .markdown => [changes.markdown]

/-- A run that has printed its answer, which may be asked to be a failure. -/
def Outcome.answer (disk : Disk) (output : List String) (denied : Bool) : Outcome :=
  ⟨output, [], if denied then .denied else .done, disk⟩

def evaluate (disk : Disk) (criteria results : String) (format : VerdictFormat)
    (failOnDenied : Bool) : Outcome :=
  match (do return (← disk.loadCriteria criteria, ← disk.loadStudent results)) with
  | .error cause => .failed disk (.load cause)
  | .ok (criteria, student) =>
    let verdict := criteria.evaluate student.results
    .answer disk (verdictLines student.id verdict format) (failOnDenied && !verdict.admitted)

def compare (disk : Disk) (baseline current : String) (format : ChangeFormat)
    (failOnNewDenials : Bool) : Outcome :=
  match (do return (← disk.loadReport baseline, ← disk.loadReport current)) with
  | .error cause => .failed disk (.load cause)
  | .ok (baseline, current) =>
    let changes := current.compare baseline
    .answer disk (changeLines changes format) (failOnNewDenials && changes.hasNewDenials)

end CourseAdmission.CommandLine
