import CourseAdmission.Criteria.Format
import CourseAdmission.Files.Disk
import CourseAdmission.Report.Document
import CourseAdmission.Results.Document

/-!
Loading criteria, results and reports from files.
-/

namespace CourseAdmission

/-- What a file is loaded as. -/
inductive FileKind where
  | criteria
  | student
  | course
  | report
  deriving DecidableEq

/-- Why a file cannot be loaded. -/
inductive LoadError where
  | unreadable (kind : FileKind) (path : String) (cause : StorageError)
  | badCriteria (path : String) (cause : CriteriaError)
  | badStudent (path : String) (cause : DecodeError)
  | badCourse (path : String) (cause : DecodeError)
  | badReport (cause : DecodeError)
  | notFolder (path : String)
  deriving DecidableEq

namespace LoadError

/-- What was tried. -/
def context : LoadError → String
  | .unreadable .criteria path _ => "failed to read criteria file: " ++ path
  | .unreadable .student path _ => "failed to read results file: " ++ path
  | .unreadable .course path _ => "failed to read results file: " ++ path
  | .unreadable .report path _ => "failed to read report from " ++ path
  | .badCriteria path _ => "invalid admission criteria in " ++ path
  | .badStudent path _ => "failed to parse student results: " ++ path
  | .badCourse path _ => "failed to parse course results: " ++ path
  | .badReport _ => "failed to parse report JSON"
  | .notFolder path => "not a directory: " ++ path

/-- Why it failed, if that is not said by what was tried. -/
def cause? : LoadError → Option String
  | .unreadable _ _ cause => some cause.message
  | .badCriteria _ cause => some cause.message
  | .badStudent _ cause => cause.message?
  | .badCourse _ cause => cause.message?
  | .badReport cause => cause.message?
  | .notFolder _ => none

/-- What was tried and why it failed, in one line. -/
def message (error : LoadError) : String := ": ".intercalate (error.context :: error.cause?.toList)

end LoadError

namespace Disk

/-- The text of a file that is loaded as something. -/
def readAs (disk : Disk) (kind : FileKind) (path : String) : Except LoadError String :=
  (disk.read path).mapError (.unreadable kind path)

/-- The criteria in a file; the ending of its name tells the format. -/
def loadCriteria (disk : Disk) (path : String) : Except LoadError Criteria := do
  let text ← disk.readAs .criteria path
  (Criteria.ofText (.ofPath path) text).mapError (.badCriteria path)

def loadStudent (disk : Disk) (path : String) : Except LoadError StudentResults := do
  let text ← disk.readAs .student path
  (Json.decode StudentResults.decoder text).mapError (.badStudent path)

def loadCourse (disk : Disk) (path : String) : Except LoadError CourseResults := do
  let text ← disk.readAs .course path
  (Json.decode CourseResults.decoder text).mapError (.badCourse path)

def loadReport (disk : Disk) (path : String) : Except LoadError Report := do
  let text ← disk.readAs .report path
  (Report.load text).mapError .badReport

/-- The files below a folder that may hold criteria. -/
def criteriaFiles (disk : Disk) (path : String) : Except LoadError (List String) :=
  match disk.folder? path with
  | some folder => .ok (folder.criteriaFiles path)
  | none => .error (.notFolder path)

end Disk

end CourseAdmission
