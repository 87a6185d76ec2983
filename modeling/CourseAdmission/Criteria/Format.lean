import CourseAdmission.Criteria.Document
import CourseAdmission.Files.Path
import CourseAdmission.Toml.Reader

/-!
The formats that criteria are written in.
-/

namespace CourseAdmission

inductive DocumentFormat where
  | json
  | toml
  deriving DecidableEq, Repr

namespace DocumentFormat

/-- Files that end in `.toml` are TOML, all others JSON. -/
def ofPath (path : String) : DocumentFormat :=
  if Path.extension? path = some "toml" then .toml else .json

end DocumentFormat

namespace Criteria

/-- The criteria that a TOML text holds. Arrays of fields may have further items. -/
def ofToml (text : String) : Except CriteriaError Criteria :=
  ofDrafts <|
    match Toml.read text with
    | some root => CriteriaDraft.decoder .ignored root
    | none => .error .unreadable

/-- The criteria that a text holds. -/
def ofText (format : DocumentFormat) (text : String) : Except CriteriaError Criteria :=
  match format with
  | .json => ofJson text
  | .toml => ofToml text

end Criteria

end CourseAdmission
