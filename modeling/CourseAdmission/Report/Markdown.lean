import CourseAdmission.Markdown
import CourseAdmission.Report.Basic

/-!
A report in Markdown: counts, the rules, who was denied by which of them, and doubts about the data.
-/

namespace CourseAdmission

/-- A share in percent, with one decimal place. -/
def rateText (percent : Binary64) : String := percent.toFixed 1 ++ "%"

/-- The cells of a rule in a table. -/
def RuleTally.cells (tally : RuleTally) : List String :=
  [toString tally.index, tally.kind.tag, tally.type.tag, toString tally.passed,
    toString tally.failed]

namespace Report

def denied (report : Report) : List StudentVerdict :=
  report.students.filter fun s => !s.verdict.admitted

/-- A denied student with the rules that failed. -/
def denialCells (student : StudentVerdict) : List String :=
  [Markdown.cell student.id,
    Markdown.cellLines (student.verdict.failed.map fun result => Markdown.cell result.summary)]

/-- A line for each warning on a student's data. -/
def warningLines (student : StudentVerdict) : List String :=
  student.verdict.warnings.map fun warning =>
    "- **" ++ Markdown.cell student.id ++ "**: " ++ warning.message

def ruleLines (report : Report) : List String :=
  if report.criteria.isEmpty then
    ["No admission criteria configured; every student is admitted.", ""]
  else
    Markdown.table "Rules" ["#", "Rule", "Type", "Passed", "Failed"]
      (report.summary.rules.map RuleTally.cells) ++ [""]

def denialLines (report : Report) : List String :=
  if report.denied.isEmpty then []
  else
    Markdown.table "Denied students" ["Student", "Failed rules"] (report.denied.map denialCells) ++
      [""]

def doubtLines (report : Report) : List String :=
  let warned := report.students.filter (·.verdict.hasWarnings)
  if warned.isEmpty then [] else ["### Data warnings", ""] ++ warned.flatMap warningLines

/-- The report in Markdown, line by line. -/
def markdownLines (report : Report) : List String :=
  ["# Admission report: " ++ Markdown.cell report.courseId, "",
    "Generated " ++ report.createdAt.display ++ " (report `" ++ report.id.toText ++ "`)", "",
    "**Summary:** " ++ toString report.summary.admitted ++ " of " ++
      toString report.summary.total ++ " students admitted (" ++
      rateText report.summary.admissionRate ++ "), " ++
      toString report.summary.denied ++ " denied, " ++ toString report.summary.withWarnings ++
      " with data warnings", ""] ++
  report.ruleLines ++ report.denialLines ++ report.doubtLines

def markdown (report : Report) : String := Text.ofLines report.markdownLines

end Report

end CourseAdmission
