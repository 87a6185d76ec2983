import CourseAdmission.Criteria.Format
import CourseAdmission.Files.Disk
import CourseAdmission.Text.Count

/-!
Settings of the command line.

They come from one file, the first of those that may hold them, and otherwise from the defaults; two
of them can be overridden by the environment.
-/

namespace CourseAdmission

open Document

/-- Which reports on a course are written. -/
inductive ReportFormat where
  | json
  | html
  | markdown
  | all
  deriving DecidableEq

namespace ReportFormat

def name : ReportFormat → String
  | .json => "json"
  | .html => "html"
  | .markdown => "markdown"
  | .all => "all"

def ofName? (name : String) : Option ReportFormat :=
  [json, html, markdown, all].find? (·.name == name)

def ofName (name : String) : Except DecodeError ReportFormat :=
  match ofName? name with
  | some format => .ok format
  | none => .error (.unknownVariant name)

/-- A format is its name, or a table with nothing but an empty value under the name. -/
def decoder : Decoder ReportFormat
  | .text (.whole name) => ofName name
  | .object [(.whole name, .object [])] => ofName name
  | .object [(.whole name, .array [])] => ofName name
  | _ => .error .unreadable

end ReportFormat

structure Settings where
  /-- The folder that reports are written to. -/
  output : String
  /-- How many students are evaluated at the same time. -/
  workers : Nat
  format : ReportFormat
  logLevel : String
  deriving DecidableEq

/-- Why there are no settings. -/
inductive SettingsError where
  | notFound (path : String)
  | unreadable (path : String) (cause : StorageError)
  | malformed (path : String) (cause : DecodeError)
  | badWorkers (value : String) (cause : Text.CountError)
  deriving DecidableEq

def SettingsError.message : SettingsError → String
  | .notFound path => "config file not found: " ++ path
  | .unreadable path cause => "failed to read config: " ++ path ++ ": " ++ cause.message
  | .malformed path cause =>
    ": ".intercalate (("failed to parse config: " ++ path) :: cause.message?.toList)
  | .badWorkers value cause => "invalid ADMISSION_PARALLELISM: '" ++ value ++ "': " ++ cause.message

/-- The values of the variables that are set. -/
abbrev Environment : Type := List (String × String)

namespace Settings

def default : Settings := ⟨"./admission-results", 4, .json, "admission=info"⟩

instance : Inhabited Settings := ⟨default⟩

/-- What is not said in a file is as by default. -/
def record : Record Settings :=
  Settings.mk
    <$> .defaulted "output_dir" [] default.output Decoder.text
    <*> .defaulted "parallelism" [] default.workers Decoder.count
    <*> .defaulted "default_format" [] default.format ReportFormat.decoder
    <*> .defaulted "log_level" [] default.logLevel Decoder.text

/-- The settings that a TOML text holds. -/
def ofToml (text : String) : Except DecodeError Settings :=
  match Toml.read text with
  | some root => record.lenient root
  | none => .error .unreadable

/-- The file in the working folder that may hold settings. -/
def localPath : String := "admission.toml"

/-- The file below a home folder that may hold settings. -/
def homePath (home : String) : String :=
  ["admission", "config.toml"].foldl Path.join (Path.join home ".config")

/-- The file that holds the settings: the one that is asked for, or else the first one of those in
    the working folder and the home folder that is there. -/
def locate (disk : Disk) (environment : Environment) :
    Option String → Except SettingsError (Option String)
  | some path => if disk.contains path then .ok (some path) else .error (.notFound path)
  | none =>
    if disk.contains localPath then .ok (some localPath)
    else .ok (((environment.lookup "HOME").map homePath).filter disk.contains)

/-- The settings in a file, or those by default without one. -/
def ofFile (disk : Disk) : Option String → Except SettingsError Settings
  | none => .ok default
  | some path => do
    let text ← (disk.read path).mapError (.unreadable path)
    (ofToml text).mapError (.malformed path)

/-- The settings with what the environment says instead. -/
def override (settings : Settings) (environment : Environment) : Except SettingsError Settings := do
  let settings := { settings with
    output := (environment.lookup "ADMISSION_OUTPUT_DIR").getD settings.output }
  match environment.lookup "ADMISSION_PARALLELISM" with
  | none => return settings
  | some value =>
    let workers ← (Text.count (Text.trim value)).mapError (.badWorkers value)
    return { settings with workers }

/-- The settings that hold for a run; a file that is asked for has to be there. -/
def load (disk : Disk) (environment : Environment) (asked : Option String) :
    Except SettingsError Settings := do
  let path ← locate disk environment asked
  let settings ← ofFile disk path
  settings.override environment

end Settings

end CourseAdmission
