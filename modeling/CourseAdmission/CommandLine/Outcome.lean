import CourseAdmission.CommandLine.Settings
import CourseAdmission.Files.Load
import CourseAdmission.Text.Lines

/-!
What a run prints, how it ends, and what it leaves on the disk.
-/

namespace CourseAdmission.CommandLine

def programVersion : String := "0.1.0"

def versionText : String := Text.ofLines ["admission " ++ programVersion]

/-- What the program can be asked for. -/
def usageText : String :=
  Text.ofLines [
    "Course admission criteria evaluation",
    "",
    "Usage: admission [--config PATH] COMMAND",
    "",
    "  validate --criteria PATH",
    "  evaluate --criteria PATH --results PATH [--format text|json] [--fail-on-denied]",
    "  batch    --criteria PATH --results PATH [--parallelism COUNT] [--output PATH]",
    "           [--format json|html|markdown|all]",
    "  compare  --baseline PATH --current PATH [--format text|json|markdown]",
    "           [--fail-on-new-denials]",
    "  init"]

/-- The reports on a course that are written to files of their own. -/
inductive ReportFile where
  | json
  | html
  | markdown
  deriving DecidableEq

/-- Why a run fails. -/
inductive RunError where
  | settings (cause : SettingsError)
  | load (cause : LoadError)
  | noWorkers
  /-- Some of the files of a folder hold no criteria. -/
  | invalidFiles (invalid total : Nat)
  | outputFolder (path : String) (cause : StorageError)
  | report (file : ReportFile) (path : String) (cause : StorageError)
  | storage (cause : StorageError)
  deriving DecidableEq

namespace RunError

/-- What was to be written. -/
def reportContext : ReportFile → String
  | .json => "failed to write report to "
  | .html => "failed to write HTML report to "
  | .markdown => "failed to write Markdown report to "

def message : RunError → String
  | .settings cause => cause.message
  | .load cause => cause.message
  | .noWorkers => "parallelism must be at least 1"
  | .invalidFiles invalid total =>
    toString invalid ++ " of " ++ toString total ++ " criteria file(s) invalid"
  | .outputFolder path cause =>
    "failed to create output directory " ++ path ++ ": " ++ cause.message
  | .report file path cause => reportContext file ++ path ++ ": " ++ cause.message
  | .storage cause => cause.message

end RunError

/-- How a run ends. -/
inductive Ending where
  | done
  /-- All was done, and the answer is one that was asked to be a failure. -/
  | denied
  | failed (error : RunError)
  deriving DecidableEq

structure Outcome where
  /-- The lines on the standard output. -/
  output : List String
  /-- The lines on the standard error output, without the one that tells of a failure. -/
  notes : List String
  ending : Ending
  disk : Disk

namespace Outcome

/-- A run that fails before anything is printed or written. -/
def failed (disk : Disk) (error : RunError) : Outcome := ⟨[], [], .failed error, disk⟩

def exitCode (outcome : Outcome) : Nat :=
  match outcome.ending with
  | .done => 0
  | .denied => 1
  | .failed _ => 1

def outputText (outcome : Outcome) : String := Text.ofLines outcome.output

def notesText (outcome : Outcome) : String :=
  Text.ofLines (outcome.notes ++
    match outcome.ending with
    | .failed error => ["Error: " ++ error.message]
    | _ => [])

end Outcome

end CourseAdmission.CommandLine
