import CourseAdmission.Report.Basic
import CourseAdmission.Markdown

/-!
What changed between two reports: whose admission was lost, whose was gained, and why.
-/

namespace CourseAdmission

/-- A student whose admission changed. -/
structure Change where
  id : String
  /-- The failed rules of the verdict that denies. -/
  deniedBy : List String
  deriving DecidableEq

structure ChangeReport where
  criteriaChanged : Bool
  newlyAdmitted : List Change
  newlyDenied : List Change
  unchanged : Nat
  /-- Entries of the current report for students whom the baseline does not have. -/
  newStudents : Nat
  /-- Entries of the baseline for students whom the current report does not have. -/
  removedStudents : Nat
  deriving DecidableEq

namespace Change

/-- The change of a student whom this verdict denies. -/
def ofDenial (id : String) (denying : Verdict) : Change := ⟨id, denying.failed.map (·.summary)⟩

/-- How an entry of the current report compares with the baseline. -/
inductive Kind where
  | added
  | admitted (change : Change)
  | denied (change : Change)
  | unchanged
  deriving DecidableEq

def Kind.admitted? : Kind → Option Change
  | .admitted change => some change
  | _ => none

def Kind.denied? : Kind → Option Change
  | .denied change => some change
  | _ => none

/-- The verdict of a student's last entry. -/
def lastVerdict? (students : List StudentVerdict) (id : String) : Option Verdict :=
  (students.reverse.find? (·.id == id)).map (·.verdict)

/-- The kind of change of an entry. A denial is explained by the verdict that denies, which is the
    current one for a new denial and the earlier one for a new admission. -/
def kind (baseline : List StudentVerdict) (student : StudentVerdict) : Kind :=
  match lastVerdict? baseline student.id with
  | none => .added
  | some before =>
    match before.admitted, student.verdict.admitted with
    | false, true => .admitted (ofDenial student.id before)
    | true, false => .denied (ofDenial student.id student.verdict)
    | _, _ => .unchanged

end Change

/-- What changed from the baseline to this report. -/
def Report.compare (current baseline : Report) : ChangeReport :=
  let kinds := current.students.map (Change.kind baseline.students)
  { criteriaChanged := !(baseline.criteria == current.criteria)
    newlyAdmitted := kinds.filterMap (·.admitted?)
    newlyDenied := kinds.filterMap (·.denied?)
    unchanged := kinds.count .unchanged
    newStudents := kinds.count .added
    removedStudents := baseline.students.countP fun s => !current.students.any (·.id == s.id) }

namespace ChangeReport

def hasNewDenials (changes : ChangeReport) : Bool := !changes.newlyDenied.isEmpty

/-- A table of changes in Markdown. -/
def table (title column : String) (changes : List Change) : List String :=
  Markdown.table title ["Student", column]
    (changes.map fun c => [c.id, Markdown.cellLines c.deniedBy])

/-- The changes in Markdown, line by line: counts, what else differs, and a table for each kind of
    change. -/
def markdownLines (changes : ChangeReport) : List String :=
  ["**Summary:** " ++ toString changes.newlyDenied.length ++ " newly denied, " ++
    toString changes.newlyAdmitted.length ++ " newly admitted, " ++ toString changes.unchanged ++
    " unchanged", ""] ++
  (if changes.criteriaChanged then
    ["_Admission criteria differ between the two reports._", ""]
  else []) ++
  (if 0 < changes.newStudents ∨ 0 < changes.removedStudents then
    [toString changes.newStudents ++ " new students, " ++ toString changes.removedStudents ++
      " removed students", ""]
  else []) ++
  (if changes.newlyDenied.isEmpty then []
  else table "Newly denied" "Failed rules" changes.newlyDenied ++ [""]) ++
  (if changes.newlyAdmitted.isEmpty then []
  else table "Newly admitted" "Previously failed rules" changes.newlyAdmitted)

def markdown (changes : ChangeReport) : String := Text.ofLines changes.markdownLines

/-- The changes as lines of plain text. -/
def lines (changes : ChangeReport) : List String :=
  ["Comparison: " ++ toString changes.newlyDenied.length ++ " newly denied, " ++
    toString changes.newlyAdmitted.length ++ " newly admitted, " ++ toString changes.unchanged ++
    " unchanged"] ++
  (if changes.criteriaChanged then
    ["Admission criteria differ between the two reports."]
  else []) ++
  (if changes.newlyDenied.isEmpty then []
  else ["", "Newly denied:"] ++ changes.newlyDenied.flatMap fun c =>
    ("  " ++ c.id) :: c.deniedBy.map ("    " ++ ·)) ++
  (if changes.newlyAdmitted.isEmpty then []
  else ["", "Newly admitted:"] ++ changes.newlyAdmitted.map fun c => "  " ++ c.id) ++
  (if 0 < changes.newStudents then
    ["", toString changes.newStudents ++ " new student(s)"]
  else []) ++
  (if 0 < changes.removedStudents then
    [toString changes.removedStudents ++ " removed student(s)"]
  else [])

end ChangeReport

end CourseAdmission
