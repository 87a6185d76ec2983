import CourseAdmission.Decimal.Literal
import CourseAdmission.Files.Load
import CourseAdmission.Report.NearMiss
import CourseAdmission.Text.Lines

/-!
A program that lists who failed a rule of a report by a small margin.

Its arguments are the path of the report and the margin in points, which is five by default.
-/

namespace CourseAdmission.CommandLine.NearMisses

inductive RunError where
  | usage
  | emptyMargin
  | badMargin
  | load (cause : LoadError)
  deriving DecidableEq

def RunError.context : RunError → String
  | .usage => "usage: near_misses <admission-report.json> [margin]"
  | .emptyMargin => "margin must be a number"
  | .badMargin => "margin must be a number"
  | .load cause => cause.context

def RunError.cause? : RunError → Option String
  | .usage => none
  | .emptyMargin => some "cannot parse float from empty string"
  | .badMargin => some "invalid float literal"
  | .load cause => cause.cause?

/-- What is printed on a failure. -/
def RunError.lines (error : RunError) : List String :=
  ("Error: " ++ error.context) ::
    match error.cause? with
    | some cause => ["", "Caused by:", "    " ++ cause]
    | none => []

/-- A line with a place for each of four texts. -/
def columns (student rule achieved required : String) : String :=
  " ".intercalate [Text.padRight 20 student, Text.padRight 6 rule, Text.padLeft 10 achieved,
    Text.padLeft 10 required]

def line (miss : NearMiss) : String :=
  columns miss.student (toString miss.rule) (percentText miss.achieved) (percentText miss.required)

def lines (report : Report) (margin : Binary64) : List String :=
  ["Course " ++ report.courseId ++ ": " ++ toString report.summary.total ++ " students, " ++
      toString report.summary.denied ++ " denied",
    "",
    "Failed rules within " ++ margin.toText ++ " points of the threshold:",
    "",
    columns "Student" "Rule" "Achieved" "Required",
    String.ofList (List.replicate 50 '-')] ++
  match report.nearMisses margin with
  | [] => ["(none)"]
  | misses => misses.map line

/-- The margin that is asked for. -/
def marginOf : Option String → Except RunError Binary64
  | none => .ok 5
  | some text =>
    match Binary64.ofText? text with
    | some margin => .ok margin
    | none => .error (if text = "" then .emptyMargin else .badMargin)

/-- What the program prints. -/
def run (disk : Disk) : List String → Except RunError (List String)
  | [] => .error .usage
  | path :: arguments => do
    let margin ← marginOf arguments.head?
    let report ← (disk.loadReport path).mapError .load
    return lines report margin

end CourseAdmission.CommandLine.NearMisses
