import CourseAdmission.CommandLine.Outcome
import CourseAdmission.Criteria.Lint

/-!
Checking files of criteria: how many rules each has, and what is doubtful about them.
-/

namespace CourseAdmission.CommandLine

/-- A warning as it is printed below its file. -/
def warningLine (warning : LintWarning) : String :=
  (match warning.rule with
    | some index => "  [rule " ++ toString index ++ "]"
    | none => "  ") ++ " WARNING: " ++ warning.message

/-- What is printed on a file with these criteria. -/
def fileLines (path : String) (criteria : Criteria) : List String :=
  (path ++ ": " ++ toString criteria.size ++ " rules") :: criteria.lint.map warningLine

/-- The line below all files; `good` is printed if there are no warnings. -/
def closingLines (good : String) (warnings : Nat) : List String :=
  if warnings = 0 then [good] else ["", toString warnings ++ " warning(s) found."]

/-- What is printed on a file of a folder. -/
def checkedLines (path : String) : Except LoadError Criteria → List String
  | .ok criteria => fileLines path criteria
  | .error cause => [path ++ ": ERROR: " ++ cause.message]

/-- How many warnings there are on all files together. -/
def lintCount : List (Except LoadError Criteria) → Nat
  | [] => 0
  | .ok criteria :: results => criteria.lint.length + lintCount results
  | .error _ :: results => lintCount results

def validateFile (disk : Disk) (path : String) : Outcome :=
  match disk.loadCriteria path with
  | .error cause => .failed disk (.load cause)
  | .ok criteria =>
    { output := fileLines path criteria ++
        closingLines "Admission criteria valid." criteria.lint.length
      notes := []
      ending := .done
      disk }

/-- Checks all files of a folder; if some hold no criteria it fails after the last one. -/
def validateFiles (disk : Disk) (paths : List String) : Outcome :=
  let checked := paths.map fun path => (path, disk.loadCriteria path)
  let printed := checked.flatMap fun (path, result) => checkedLines path result
  let invalid := checked.countP fun (_, result) => !result.isOk
  if invalid = 0 then
    let good := "All admission criteria valid (" ++ toString paths.length ++ " files)."
    { output := printed ++ closingLines good (lintCount (checked.map (·.2)))
      notes := []
      ending := .done
      disk }
  else ⟨printed, [], .failed (.invalidFiles invalid paths.length), disk⟩

/-- Checks a file, or all files of a folder that may hold criteria. -/
def validate (disk : Disk) (path : String) : Outcome :=
  match disk.criteriaFiles path with
  | .ok paths => validateFiles disk paths
  | .error _ => validateFile disk path

end CourseAdmission.CommandLine
