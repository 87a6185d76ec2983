import CourseAdmission.CommandLine.Outcome
import CourseAdmission.Report.Batch
import CourseAdmission.Report.Page
import CourseAdmission.Text.Grid

/-!
Runs that write files: reports on a course, and files to start with.
-/

namespace CourseAdmission.CommandLine

namespace ReportFile

def fileName : ReportFile → String
  | .json => "admission-report.json"
  | .html => "admission-report.html"
  | .markdown => "admission-report.md"

/-- What is printed in front of the path of a written report. -/
def savedLabel : ReportFile → String
  | .json => "Results saved to: "
  | .html => "HTML report: "
  | .markdown => "Markdown report: "

def content (report : Report) : ReportFile → String
  | .json => report.save
  | .html => report.page
  | .markdown => report.markdown

/-- The files of a format in the order in which they are written. -/
def ofFormat : ReportFormat → List ReportFile
  | .json => [json]
  | .html => [html]
  | .markdown => [markdown]
  | .all => [json, html, markdown]

end ReportFile

/-- The line on a student who has been evaluated. -/
def noticeLines : Batch.Notice → List String
  | .evaluated student =>
    ["  " ++ student.id ++ ": " ++ (if student.verdict.admitted then "ADMITTED" else "DENIED") ++
      (if student.verdict.hasWarnings then " (data warnings)" else "")]
  | .complete _ _ => []

/-- The line on all students together; the duration is in milliseconds. -/
def completeLine (duration : Nat) (summary : Summary) : String :=
  "Complete: " ++ toString summary.admitted ++ "/" ++ toString summary.total ++ " admitted (" ++
    (Binary64.ofNat duration / 1000).toFixed 1 ++ "s)"

/-- The row of a rule in the table of rules. -/
def tallyRow (total : Nat) (tally : RuleTally) : List String :=
  tally.cells ++ [rateText (percentOf tally.passed total)]

def summaryLines (summary : Summary) : List String :=
  Text.Grid.lines ["#", "Rule", "Type", "Passed", "Failed", "Pass rate"]
    (summary.rules.map (tallyRow summary.total)) ++
  ["Admitted: " ++ toString summary.admitted ++ "/" ++ toString summary.total ++ " (" ++
    rateText summary.admissionRate ++ "), denied: " ++ toString summary.denied ++
    ", with data warnings: " ++ toString summary.withWarnings]

/-- Writes reports one after the other up to the first one that cannot be written. -/
def writeReports (disk : Disk) (folder : String) (report : Report) :
    List ReportFile → List String × Ending × Disk
  | [] => ([], .done, disk)
  | file :: files =>
    let path := Path.join folder file.fileName
    match disk.write path (file.content report) with
    | .error cause => ([], .failed (.report file path cause), disk)
    | .ok disk =>
      let (lines, ending, disk) := writeReports disk folder report files
      ((file.savedLabel ++ path) :: lines, ending, disk)

/-- Makes the folder for the reports and writes them. -/
def saveReports (disk : Disk) (settings : Settings) (report : Report) :
    List String × Ending × Disk :=
  match disk.makeFolders settings.output with
  | .error cause => ([], .failed (.outputFolder settings.output cause), disk)
  | .ok disk => writeReports disk settings.output report (ReportFile.ofFormat settings.format)

/-- The criteria and the course, if there is somebody to evaluate it. -/
def batchInput (disk : Disk) (settings : Settings) (criteria results : String) :
    Except RunError (Criteria × CourseResults) := do
  if settings.workers = 0 then throw .noWorkers
  let criteria ← (disk.loadCriteria criteria).mapError .load
  let course ← (disk.loadCourse results).mapError .load
  return (criteria, course)

/-- Evaluates a course along a schedule, and writes reports on it. -/
def batch (disk : Disk) (settings : Settings) (criteria results : String) (stamp : Report.Stamp)
    (schedule : List Batch.Step) : Outcome :=
  match batchInput disk settings criteria results with
  | .error error => .failed disk error
  | .ok (criteria, course) =>
    let (report, notices) := Batch.run criteria course stamp settings.workers schedule
    let (saved, ending, disk) := saveReports disk settings report
    { output := []
      notes :=
        ["admission v" ++ programVersion ++ ": evaluating " ++ toString course.students.length ++
          " students of " ++ course.id ++ " against " ++ toString criteria.size ++ " rules", ""] ++
        notices.flatMap noticeLines ++ ["", completeLine report.duration report.summary, ""] ++
        summaryLines report.summary ++ saved
      ending
      disk }

/-! ### Files to start with -/

def starterSettings : String :=
  Text.ofLines [
    "# admission configuration",
    "",
    "output_dir = \"./admission-results\"",
    "parallelism = 4",
    "# json, html, markdown or all",
    "default_format = \"json\"",
    "# used when RUST_LOG is not set",
    "log_level = \"admission=info\""]

def starterCriteria : String :=
  Text.ofLines [
    "\x7b",
    "  \"rules\": [",
    "    \x7b",
    "      \"type\": \"REQUIRED_PERCENT_OVERALL\",",
    "      \"assignmentType\": \"HOMEWORK\",",
    "      \"requiredPercent\": 50,",
    "      \"achievedPercentRounding\": \x7b \"type\": \"UP_NEAREST_INTEGER\" \x7d",
    "    \x7d,",
    "    \x7b",
    "      \"type\": \"REQUIRED_PERCENT_OVERALL\",",
    "      \"assignmentType\": \"TESTAT\",",
    "      \"requiredPercent\": 50,",
    "      \"achievedPercentRounding\": \x7b \"type\": \"DECIMALS\", \"decimals\": 0 \x7d",
    "    \x7d,",
    "    \x7b",
    "      \"type\": \"PASSED_X_PERCENT_WITH_AT_LEAST_Y_PERCENT\",",
    "      \"assignmentType\": \"HOMEWORK\",",
    "      \"requiredPercent\": 50,",
    "      \"achievedPercentRounding\": \x7b \"type\": \"NONE\" \x7d,",
    "      \"passedAssignmentsPercent\": 70,",
    "      \"passedAssignmentsRounding\": \x7b \"type\": \"DOWN_NEAREST_INTEGER\" \x7d",
    "    \x7d",
    "  ]",
    "\x7d"]

def starterFolder : String := "criteria"

def starterPath : String := "criteria/example.json"

def nextSteps : List String := [
  "",
  "Next steps:",
  "  1. Edit criteria/example.json to match your course's admission rules",
  "  2. Run: admission validate --criteria criteria/example.json",
  "  3. Run: admission batch --criteria criteria/example.json --results course.json"]

/-- Writes a file unless something is there, and tells which. -/
def writeStarter (disk : Disk) (path content : String) : Except RunError (String × Disk) :=
  if disk.contains path then .ok (path ++ " already exists, skipping.", disk)
  else
    match disk.write path content with
    | .ok disk => .ok ("Created " ++ path, disk)
    | .error cause => .error (.storage cause)

/-- Writes settings and criteria to start with. What was done before a failure stays. -/
def init (disk : Disk) : Outcome :=
  match writeStarter disk Settings.localPath starterSettings with
  | .error error => .failed disk error
  | .ok (settingsLine, disk) =>
    match (do
      let disk ← (disk.makeFolders starterFolder).mapError RunError.storage
      writeStarter disk starterPath starterCriteria) with
    | .error error => ⟨[settingsLine], [], .failed error, disk⟩
    | .ok (criteriaLine, disk) => ⟨settingsLine :: criteriaLine :: nextSteps, [], .done, disk⟩

end CourseAdmission.CommandLine
