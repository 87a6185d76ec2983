import CourseAdmission.CommandLine.Answering
import CourseAdmission.CommandLine.Checking
import CourseAdmission.CommandLine.Writing

/-!
A run: its arguments, the settings that hold for it, and its outcome.
-/

namespace CourseAdmission.CommandLine

/-- The settings of a batch, in which what the arguments say counts first. -/
def batchSettings (settings : Settings) (workers : Option Nat) (output : Option String)
    (format : Option ReportFormat) : Settings :=
  { settings with
    workers := workers.getD settings.workers
    output := output.getD settings.output
    format := format.getD settings.format }

/-- The paths that settings may be read from. -/
def Invocation.settingsPaths (environment : Environment) (invocation : Invocation) : List String :=
  match invocation.settings with
  | some path => [path]
  | none => Settings.localPath :: ((environment.lookup "HOME").map Settings.homePath).toList

/-- The paths that a command looks at once there are settings. -/
def Command.paths (settings : Settings) : Command → List String
  | .validate criteria => [criteria]
  | .evaluate criteria results _ _ => [criteria, results]
  | .batch criteria results workers output format =>
    let folder := (batchSettings settings workers output format).output
    [criteria, results, folder] ++ (ReportFile.ofFormat .all).map fun file =>
      Path.join folder file.fileName
  | .compare baseline current _ _ => [baseline, current]
  | .init => [Settings.localPath, starterFolder, starterPath]

/-- What a command does once there are settings. -/
def Command.run (disk : Disk) (settings : Settings) (stamp : Report.Stamp)
    (schedule : List Batch.Step) : Command → Outcome
  | .validate criteria => CommandLine.validate disk criteria
  | .evaluate criteria results format failOnDenied =>
    CommandLine.evaluate disk criteria results format failOnDenied
  | .batch criteria results workers output format =>
    CommandLine.batch disk (batchSettings settings workers output format) criteria results stamp
      schedule
  | .compare baseline current format failOnNewDenials =>
    CommandLine.compare disk baseline current format failOnNewDenials
  | .init => CommandLine.init disk

/-- The outcome of an invocation. Without settings no command is run, even one that needs none. -/
def Invocation.run (disk : Disk) (environment : Environment) (stamp : Report.Stamp)
    (schedule : List Batch.Step) (invocation : Invocation) : Outcome :=
  match Settings.load disk environment invocation.settings with
  | .error cause => .failed disk (.settings cause)
  | .ok settings => invocation.command.run disk settings stamp schedule

end CourseAdmission.CommandLine
