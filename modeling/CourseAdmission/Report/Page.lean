import CourseAdmission.Report.Chart
import CourseAdmission.Report.Document
import CourseAdmission.Report.Page.Style

/-!
A report as a page of its own: counts, a chart, the verdict on each student, and the report's text.
-/

namespace CourseAdmission

namespace Page

open Markup

def strong (content : String) : Markup := label "strong" content

def paragraph (attributes : List (String × String)) (parts : List Markup) : Markup :=
  .element "p" attributes parts

def head (report : Report) : List Markup :=
  [.void "meta" [("charset", "utf-8")],
    .void "meta" [("name", "viewport"), ("content", "width=device-width, initial-scale=1")],
    label "title" ("Admission report: " ++ report.courseId),
    .element "style" [] [newline, .verbatim styleSheet]]

def header (report : Report) : Markup :=
  block "header" [] [
    label "h1" "Admission report",
    paragraph [("class", "meta")] [
      .text "Course: ", strong report.courseId,
      .text (" | " ++ toString report.summary.total ++ " students | " ++
        toString report.criteria.size ++ " rules | " ++ report.createdAt.display ++ " | report " ++
        report.id.toText)]]

/-- The chart, if there are students and rules. -/
def chart (summary : Summary) : List Markup :=
  if 0 < summary.total ∧ !summary.rules.isEmpty then [Chart.markup summary] else []

def dashboard (summary : Summary) : Markup :=
  block "section" [("class", "dashboard")] ([
    label "h2" "Summary",
    paragraph [] [
      strong (toString summary.admitted), .text " admitted, ", strong (toString summary.denied),
      .text (" denied (" ++ rateText summary.admissionRate ++ " admission rate), " ++
        toString summary.withWarnings ++ " with data warnings")],
    table [("class", "summary")] (["#", "Rule", "Type", "Passed", "Failed"].map (label "th"))
      (summary.rules.map fun tally => tableRow (tally.cells.map (label "td")))] ++
    chart summary)

/-- Lines of text one below the other. -/
def explanation (lines : List String) : List Markup :=
  (lines.map Markup.text).intersperse (.void "br" [])

def studentRow (student : StudentVerdict) : Markup :=
  let outcome := if student.verdict.admitted then "pass" else "fail"
  let decision := if student.verdict.admitted then "ADMITTED" else "DENIED"
  .element "tr" [("class", outcome ++ if student.verdict.hasWarnings then " warn" else "")] [
    label "td" student.id,
    .element "td" [("class", outcome)] [.text decision],
    .element "td" [("class", "explanation")] (explanation student.verdict.explanation)]

/-- A head that sorts the table by its column. -/
def sortingHead (column : Nat) (title : String) : Markup :=
  .element "th" [("onclick", "sortTable(" ++ toString column ++ ")")] [.text title]

def results (students : List StudentVerdict) : Markup :=
  block "section" [("class", "results")] [
    label "h2" "Students",
    table [("class", "results-table"), ("id", "results")]
      [sortingHead 0 "Student", sortingHead 1 "Verdict", label "th" "Explanation"]
      (students.map studentRow)]

/-- The text that the report is kept as. -/
def rawData (report : Report) : Markup :=
  block "section" [("class", "raw-data")] [
    block "details" [] [
      label "summary" "Raw JSON Data",
      .element "pre" [] [label "code" report.save]]]

def script : Markup := .element "script" [] [newline, .verbatim sortScript]

end Page

/-- The page of a report. -/
def Report.page (report : Report) : String :=
  Markup.page (Page.head report)
    [Page.header report, Page.dashboard report.summary, Page.results report.students,
      Page.rawData report, Page.script]

end CourseAdmission
