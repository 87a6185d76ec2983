import CourseAdmission.Proofs.Criteria.Demand
import CourseAdmission.Proofs.Markup.Tags
import CourseAdmission.Proofs.Time.Instant
import CourseAdmission.Report.Page

/-!
The page of a report has the same tags whatever the course, the students and the assignments are
called.
-/

namespace CourseAdmission

/-! ## What is left of a report without its names -/

def DataWarning.withoutIds : DataWarning → DataWarning
  | .noResults type => .noResults type
  | .outOfRange ids => .outOfRange (ids.map fun _ => "")

def RuleResult.withoutIds (result : RuleResult) : RuleResult :=
  { result with warnings := result.warnings.map (·.withoutIds) }

def Verdict.withoutIds (verdict : Verdict) : Verdict :=
  { verdict with results := verdict.results.map (·.withoutIds) }

def StudentVerdict.withoutIds (student : StudentVerdict) : StudentVerdict :=
  ⟨"", student.verdict.withoutIds⟩

/-- The report with no text for the course, for the students and for the assignments of its
    warnings. -/
def Report.withoutIds (report : Report) : Report :=
  { report with courseId := "", students := report.students.map (·.withoutIds) }

namespace Verdict

variable (verdict : Verdict)

theorem hasWarnings_withoutIds : verdict.withoutIds.hasWarnings = verdict.hasWarnings := by
  simp [hasWarnings, withoutIds, RuleResult.hasWarnings, RuleResult.withoutIds, Function.comp_def]

theorem length_explanation_withoutIds :
    verdict.withoutIds.explanation.length = verdict.explanation.length := by
  simp only [explanation, withoutIds, List.isEmpty_map]
  split
  · rfl
  · simp [List.flatMap_map, List.length_flatMap, RuleResult.explanation, RuleResult.withoutIds]

end Verdict

namespace Page

open Markup

/-! ## Nothing but the style sheet and the script is written as it stands -/

theorem lacks_styleSheet : Text.Lacks ['<'] styleSheet := by
  rw [styleSheet, Text.lacks_ofLines (by decide)]
  simp only [List.forall_mem_cons, Text.lacks_append, List.not_mem_nil, false_implies,
    implies_true, and_true]
  and_intros <;> exact Text.lacks_literal (by decide)

theorem lacks_sortScript : Text.Lacks ['<'] sortScript := by
  rw [sortScript, Text.lacks_ofLines (by decide)]
  simp only [List.forall_mem_cons, List.not_mem_nil, false_implies, implies_true, and_true]
  and_intros <;> exact Text.lacks_literal (by decide)

theorem tidyAll_head (report : Report) : TidyAll (head report) := by
  simp [head, TidyAll, Tidy, lacks_styleSheet]

theorem tidy_script : script.Tidy := by
  simp [script, TidyAll, Tidy, lacks_sortScript]

theorem tidyAll_bar (total row : Nat) (tally : RuleTally) :
    TidyAll (Chart.bar total row tally) := by
  simp [Chart.bar, TidyAll, Tidy]

theorem tidyAll_chart (summary : Summary) : TidyAll (chart summary) := by
  rw [chart]
  split
  · have hbars : TidyAll (Chart.bars summary) := by
      simp [Chart.bars, tidyAll_bar]
    simpa [Chart.markup, TidyAll, Tidy] using tidyAll_iff.1 hbars
  · trivial

theorem tidy_header (report : Report) : (header report).Tidy := by
  simp [header, paragraph, strong, TidyAll, Tidy]

theorem tidy_dashboard (summary : Summary) : (dashboard summary).Tidy := by
  simp [dashboard, paragraph, strong, TidyAll, Tidy, tidyAll_chart]

theorem tidyAll_explanation : ∀ lines : List String, TidyAll (explanation lines)
  | [] => trivial
  | [_] => ⟨trivial, trivial⟩
  | _ :: line :: lines => ⟨trivial, trivial, tidyAll_explanation (line :: lines)⟩

theorem tidy_studentRow (student : StudentVerdict) : (studentRow student).Tidy := by
  simp [studentRow, TidyAll, Tidy, tidyAll_explanation]

theorem tidy_results (students : List StudentVerdict) : (results students).Tidy := by
  simp [results, sortingHead, TidyAll, Tidy, tidy_studentRow]

theorem tidy_rawData (report : Report) : (rawData report).Tidy := by
  simp [rawData, TidyAll, Tidy]

theorem tidyAll_body (report : Report) : TidyAll [header report, dashboard report.summary,
    results report.students, rawData report, script] :=
  ⟨tidy_header report, tidy_dashboard report.summary, tidy_results report.students,
    tidy_rawData report, tidy_script, trivial⟩

/-! ## The tags of the parts -/

/-- Between the lines of an explanation there are line breaks, and nothing else counts. -/
theorem tagsAll_explanation : ∀ lines : List String, tagsAll (explanation lines) =
    (List.replicate (lines.length - 1) (tags (.void "br" []))).flatten
  | [] => rfl
  | [_] => rfl
  | line :: next :: lines => by
    change tagsAll (.text line :: .void "br" [] :: explanation (next :: lines)) = _
    rw [tagsAll, tagsAll, tagsAll_explanation (next :: lines)]
    rfl

theorem tags_studentRow_withoutIds (student : StudentVerdict) :
    (studentRow student.withoutIds).tags = (studentRow student).tags := by
  have hverdict : student.withoutIds.verdict = student.verdict.withoutIds := rfl
  have hadmitted : student.verdict.withoutIds.admitted = student.verdict.admitted := rfl
  simp only [studentRow, label, tagsAll, tags, tagsAll_explanation, hverdict, hadmitted,
    Verdict.hasWarnings_withoutIds, Verdict.length_explanation_withoutIds]

theorem tags_results_withoutIds (students : List StudentVerdict) :
    (results (students.map (·.withoutIds))).tags = (results students).tags := by
  have hrows : tagsAll ((students.map (·.withoutIds)).map studentRow) =
      tagsAll (students.map studentRow) := by
    simp [tagsAll_eq_flatMap, List.flatMap_map, tags_studentRow_withoutIds]
  simp only [results, table, tags_block, tagsAll, tags, hrows]

theorem tags_header_withoutIds (report : Report) :
    (header report.withoutIds).tags = (header report).tags := by
  simp only [header, paragraph, strong, label, tags_block, tagsAll, tags]

theorem tags_rawData_withoutIds (report : Report) :
    (rawData report.withoutIds).tags = (rawData report).tags := by
  simp only [rawData, label, tags_block, tagsAll, tags]

theorem tagsAll_head_withoutIds (report : Report) :
    tagsAll (head report.withoutIds) = tagsAll (head report) := by
  simp only [head, label, tagsAll, tags]

end Page

namespace Report

/-- The tags of the page of a report are those without the names in it. -/
theorem tagsOf_page_withoutIds (report : Report) :
    Markup.tagsOf report.withoutIds.page = Markup.tagsOf report.page := by
  have hsummary : report.withoutIds.summary = report.summary := rfl
  have hstudents : report.withoutIds.students = report.students.map (·.withoutIds) := rfl
  rw [page, page, Markup.tagsOf_page (Page.tidyAll_head _) (Page.tidyAll_body _),
    Markup.tagsOf_page (Page.tidyAll_head _) (Page.tidyAll_body _)]
  simp only [Markup.tags_block, Markup.tagsAll, Page.tagsAll_head_withoutIds,
    Page.tags_header_withoutIds, Page.tags_rawData_withoutIds, hsummary, hstudents,
    Page.tags_results_withoutIds]

/-- Let two reports, whether evaluated or loaded, be the same without the names of the course, of
    the students and of the assignments in their warnings. Then their pages have the same tags, from
    each `<` to the next `>`, one by one; so no name opens, closes or changes an element. -/
theorem tagsOf_page_eq {a b : Report} (h : a.withoutIds = b.withoutIds) :
    Markup.tagsOf a.page = Markup.tagsOf b.page := by
  rw [← tagsOf_page_withoutIds a, h, tagsOf_page_withoutIds]

/-- A report on one student, one of whose assignments has a percentage out of range. -/
def onDoubtful (course student assignment : String) : Report :=
  let criteria : Criteria := ⟨[.overall .homework ⟨50, .none, Binary64.isPercent_fifty, trivial⟩]⟩
  criteria.evaluateCourse ⟨.nil, .epoch, 0⟩
    ⟨course, [⟨student, [⟨assignment, .homework, 200, true⟩]⟩]⟩

/-- Names that look like markup. -/
theorem tagsOf_page_onDoubtful :
    (onDoubtful "Lean" "ann" "first").withoutIds =
        (onDoubtful "</title><script>" "<b onclick=\"" "&lt;br>' <p>").withoutIds ∧
      Markup.tagsOf (onDoubtful "Lean" "ann" "first").page =
        Markup.tagsOf (onDoubtful "</title><script>" "<b onclick=\"" "&lt;br>' <p>").page := by
  have hsame : (onDoubtful "Lean" "ann" "first").withoutIds =
      (onDoubtful "</title><script>" "<b onclick=\"" "&lt;br>' <p>").withoutIds := by
    decide +kernel
  exact ⟨hsame, tagsOf_page_eq hsame⟩

end Report

end CourseAdmission
