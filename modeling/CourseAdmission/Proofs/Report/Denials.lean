import CourseAdmission.Proofs.Markup.Rows
import CourseAdmission.Proofs.Report.Counts
import CourseAdmission.Proofs.Report.Lines
import CourseAdmission.Proofs.Text.Lines
import CourseAdmission.Report.Page

/-!
The page of a report and its Markdown name the same students as denied, in the same order.
-/

namespace CourseAdmission

open Text (lineEnds linesOf splitLines)

/-! ## The page -/

namespace Page

open Markup

/-- What a page shows. -/
def body (report : Report) : List Markup :=
  [header report, dashboard report.summary, results report.students, rawData report, script]

/-- The ids in the rows that are marked as denied, from top to bottom. -/
def deniedIn (shown : List Markup) : List String :=
  ((rowsAll shown).filter fun cells => cells[1]? == some "DENIED").filterMap (·.head?)

theorem page_eq (report : Report) : report.page = Markup.page (head report) (body report) := rfl

theorem rows_header (report : Report) : (header report).rows = [] := by
  rw [header, rows_block (by decide), rowsAll_eq_nil_iff]
  simp [paragraph, strong]

theorem rowsAll_chart (summary : Summary) : rowsAll (chart summary) = [] := by
  have hbars : (Chart.bars summary).flatMap rows = [] := by
    rw [← rowsAll_eq_flatMap, Chart.bars, rowsAll_flatMap]
    simp [Chart.bar]
  rw [chart]
  split
  · rw [← hbars]
    simp [Chart.markup, rowsAll_flatMap]
  · rfl

theorem rows_dashboard (summary : Summary) : (dashboard summary).rows =
    ["#", "Rule", "Type", "Passed", "Failed"] :: summary.rules.map (·.cells) := by
  rw [dashboard, rows_block (by decide), rowsAll_append, rowsAll_chart]
  simp [paragraph, strong, rows_table_labels]

theorem rows_studentRow (student : StudentVerdict) : (studentRow student).rows =
    [[student.id, if student.verdict.admitted then "ADMITTED" else "DENIED",
      contentAll (explanation student.verdict.explanation)]] := by
  simp [studentRow]

theorem rows_results (students : List StudentVerdict) : (results students).rows =
    ["Student", "Verdict", "Explanation"] :: students.flatMap fun student =>
      (studentRow student).rows := by
  rw [results, rows_block (by decide)]
  simp [rows_table, rowsAll_map, sortingHead]

theorem rows_rawData (report : Report) : (rawData report).rows = [] := by
  rw [rawData, rows_block (by decide)]
  simp [rows_block]

/-- The rows of a page are those of its rules and those of its students, each below their heads. -/
theorem rowsAll_body (report : Report) : rowsAll (body report) =
    (["#", "Rule", "Type", "Passed", "Failed"] :: report.summary.rules.map (·.cells)) ++
      (["Student", "Verdict", "Explanation"] :: report.students.flatMap fun student =>
        (studentRow student).rows) := by
  simp [body, rows_header, rows_dashboard, rows_results, rows_rawData, script]

/-- The page marks those as denied who are. -/
theorem deniedIn_body (report : Report) :
    deniedIn (body report) = report.denied.map (·.id) := by
  have hrules : (report.summary.rules.map (·.cells)).filter
      (fun cells => cells[1]? == some "DENIED") = [] := by
    rw [List.filter_eq_nil_iff, List.forall_mem_map]
    intro tally _
    cases hkind : tally.kind <;> simp [RuleTally.cells, hkind, RuleKind.tag]
  rw [deniedIn, rowsAll_body, Report.denied]
  simp [hrules]
  induction report.students with
  | nil => rfl
  | cons student students ih =>
    rw [List.flatMap_cons, rows_studentRow]
    cases hadmitted : student.verdict.admitted <;> simp [hadmitted, ih]

end Page

/-! ## The students who are denied -/

namespace Criteria

/-- The outcomes of the rules that fail on these results, in the order of the rules. -/
def failuresOn (criteria : Criteria) (results : List AssignmentResult) : List RuleResult :=
  (criteria.rules.zipIdx.filter fun (rule, _) => !rule.passesOn results).map fun (rule, place) =>
    rule.resultOn results place

/-- The students with a rule that fails on their results. -/
def deniedOf (criteria : Criteria) (course : CourseResults) : List StudentResults :=
  course.students.filter fun student => criteria.rules.any fun rule =>
    !rule.passesOn student.results

variable (criteria : Criteria)

theorem failed_evaluate (results : List AssignmentResult) :
    (criteria.evaluate results).failed = criteria.failuresOn results := by
  rw [evaluate_eq, Verdict.failed, evaluateUncached, failuresOn, List.filter_map]
  rfl

theorem failuresOn_ne_nil {criteria : Criteria} {course : CourseResults}
    {student : StudentResults} (h : student ∈ criteria.deniedOf course) :
    criteria.failuresOn student.results ≠ [] := by
  obtain ⟨-, hany⟩ := List.mem_filter.1 h
  obtain ⟨rule, hrule, hfails⟩ := List.any_eq_true.1 hany
  obtain ⟨place, hplace⟩ := List.mem_iff_getElem?.1 hrule
  rw [failuresOn, Ne, List.map_eq_nil_iff, List.filter_eq_nil_iff]
  exact fun hnone => hnone (rule, place) (List.mk_mem_zipIdx_iff_getElem?.2 hplace) hfails

/-- Those are denied who fail a rule. -/
theorem denied_evaluateCourse (stamp : Report.Stamp) (course : CourseResults) :
    (criteria.evaluateCourse stamp course).denied =
      (criteria.deniedOf course).map criteria.evaluateStudent := by
  rw [Report.denied, deniedOf, evaluateCourse, Report.ofVerdicts, List.filter_map]
  congr 2
  funext student
  simp [evaluateStudent, admitted_evaluate, List.all_eq_not_any_not]

theorem denied_summary_evaluateCourse (stamp : Report.Stamp) (course : CourseResults) :
    (criteria.evaluateCourse stamp course).summary.denied = (criteria.deniedOf course).length := by
  have hdenied := congrArg List.length (criteria.denied_evaluateCourse stamp course)
  have hsplit := length_eq_countP_add_countP_not
    (criteria.evaluateCourse stamp course).students (·.verdict.admitted)
  rw [List.length_map, Report.denied, ← List.countP_eq_length_filter] at hdenied
  have hsummary : (criteria.evaluateCourse stamp course).summary.denied =
      (criteria.evaluateCourse stamp course).students.length -
        (criteria.evaluateCourse stamp course).students.countP (·.verdict.admitted) := rfl
  omega

end Criteria

/-! ## The Markdown -/

namespace Report

/-- The row of a denied student. -/
def denialRow (student : StudentVerdict) : String := Markdown.row (denialCells student)

/-- The summaries of the rules that failed, one below the other. -/
theorem denialCells_eq (student : StudentVerdict) : denialCells student =
    [Markdown.cell student.id, Markdown.cellLines (student.verdict.failed.map (·.summary))] := by
  simp only [denialCells, fun result : RuleResult => result.inline_summary.cell_eq]

/-- A student's row is read as the student's id and the summaries of the rules that failed. -/
theorem cellsOf_denialRow (student : StudentVerdict) : Markdown.cellsOf (denialRow student) =
    [Markdown.cell student.id, "<br>".intercalate (student.verdict.failed.map (·.summary))] := by
  have hfailed : Markdown.Inline (Markdown.cellLines (student.verdict.failed.map (·.summary))) :=
    Markdown.inline_cellLines (List.forall_mem_map.2 fun result _ => result.inline_summary)
  rw [denialRow, denialCells_eq, Markdown.cellsOf_row (List.cons_ne_nil _ _)]
  · rfl
  · exact List.forall_mem_cons.2
      ⟨Markdown.boundaries_cell _, List.forall_mem_singleton.2 hfailed.boundaries_eq_zero⟩

theorem lineEnds_denialRow (student : StudentVerdict) : lineEnds (denialRow student) = 0 := by
  rw [denialRow, Markdown.lineEnds_row, List.sum_eq_zero_iff_forall_eq_nat]
  exact List.forall_mem_map.2 (lineEnds_of_mem_denialCells student)

variable (report : Report)

theorem denialLines_eq : report.denialLines = if report.denied = [] then [] else
    ["### Denied students", "", "| Student | Failed rules |", "|---------|--------------|"] ++
      report.denied.map denialRow ++ [""] := by
  have htable : Markdown.table "Denied students" ["Student", "Failed rules"]
      (report.denied.map denialCells) =
        ["### Denied students", "", "| Student | Failed rules |", "|---------|--------------|"] ++
          report.denied.map denialRow := by
    rw [Markdown.table, List.map_map]
    rfl
  rw [denialLines, htable]
  simp only [List.isEmpty_iff]

theorem lineEnds_of_mem_ruleLines : ∀ line ∈ report.ruleLines, lineEnds line = 0 := by
  rw [← Text.lineEnds_ofLines_eq_length_iff, lineEnds_ruleLines, ruleLines]
  split
  · rfl
  · simp [Markdown.table]

theorem lineEnds_of_mem_denialLines : ∀ line ∈ report.denialLines, lineEnds line = 0 := by
  rw [← Text.lineEnds_ofLines_eq_length_iff, lineEnds_denialLines, denialLines_eq]
  simp only [List.length_eq_zero_iff]
  split
  · rfl
  · simp

/-- Further lines that the names of assignments bring into the warnings. -/
def forgedLines : List String :=
  report.warnings.flatMap fun warning => (splitLines warning.message).tail

/-- Only the warnings are read as other lines than they are written as. -/
theorem linesOf_markdown : linesOf report.markdown =
    report.headLines ++ report.ruleLines ++ report.denialLines ++
      report.doubtLines.flatMap splitLines := by
  rw [markdown, Text.linesOf_ofLines, markdownLines_eq, List.flatMap_append, List.flatMap_append,
    List.flatMap_append,
    Text.flatMap_splitLines_of_lineEnds_eq_zero report.lineEnds_of_mem_headLines,
    Text.flatMap_splitLines_of_lineEnds_eq_zero report.lineEnds_of_mem_ruleLines,
    Text.flatMap_splitLines_of_lineEnds_eq_zero report.lineEnds_of_mem_denialLines]

/-- Of the lines below the heading of the warnings, those that do not begin like a warning come out
    of names. -/
theorem mem_doubtLines_iff {line : String} (hheading : line ∉ ["### Data warnings", ""])
    (hwarning : ¬"- **".toList <+: line.toList) :
    line ∈ report.doubtLines.flatMap splitLines ↔ line ∈ report.forgedLines := by
  have hheadings : line ∉ ["### Data warnings", ""].flatMap splitLines := by
    rwa [Text.flatMap_splitLines_of_lineEnds_eq_zero (by decide)]
  have hwritten : line ∈ report.doubtLines.flatMap splitLines ↔
      line ∈ (report.students.flatMap warningLines).flatMap splitLines := by
    unfold doubtLines
    rw [← flatMap_warningLines_warned]
    dsimp only
    split
    case isTrue hnone => rw [List.isEmpty_iff.1 hnone]; rfl
    case isFalse => rw [List.flatMap_append, List.mem_append, or_iff_right hheadings]
  have hforged (id : String) (warning : DataWarning) :
      line ∈ splitLines ("- **" ++ Markdown.cell id ++ "**: " ++ warning.message) ↔
        line ∈ (splitLines warning.message).tail := by
    have hopening : lineEnds "- **" = 0 := rfl
    have hclosing : lineEnds "**: " = 0 := rfl
    have hstart : lineEnds ("- **" ++ Markdown.cell id ++ "**: ") = 0 := by
      rw [Text.lineEnds_append, Text.lineEnds_append, hopening, Markdown.lineEnds_cell, hclosing]
    obtain ⟨first, rest, hmessage, hline⟩ := Text.exists_splitLines_append hstart warning.message
    rw [hline, hmessage, List.tail_cons, List.mem_cons, or_iff_right]
    rintro rfl
    apply hwarning
    simp only [String.toList_append, List.append_assoc]
    exact List.prefix_append _ _
  rw [hwritten, forgedLines, warnings]
  simp only [List.flatMap_assoc, warningLines, List.flatMap_map, List.mem_flatMap, hforged]

/-- A row or a rule of a table begins with a pipe. -/
theorem mem_table_iff {line title : String} {heads : List String} {rows : List (List String)}
    (hrow : ¬"|".toList <+: line.toList) :
    line ∈ Markdown.table title heads rows ↔ line = "### " ++ title ∨ line = "" := by
  have hcells (cells : List String) : line ≠ Markdown.row cells := by
    rintro rfl
    apply hrow
    rw [Markdown.row, String.toList_append, String.toList_append, List.append_assoc]
    exact (List.prefix_append ['|'] [' ']).trans (List.prefix_append _ _)
  have hrule : line ≠ Markdown.rule heads := by
    rintro rfl
    apply hrow
    rw [Markdown.rule, String.toList_append, String.toList_append, List.append_assoc]
    exact List.prefix_append _ _
  simp [Markdown.table, hcells, hrule, eq_comm]

/-- What the lines above the rules, the rows and the warnings begin with. -/
def starts : List String := ["# Admission report: ", "Generated ", "**Summary:** ", "|", "- **"]

/-- Of the lines of a report that begin otherwise, one stands for missing rules, one is above each
    table, and the others come out of names. -/
theorem mem_linesOf_markdown_iff {line : String} (hheading : line ∉ ["### Data warnings", ""])
    (hstart : ∀ start ∈ starts, ¬start.toList <+: line.toList) :
    line ∈ linesOf report.markdown ↔
      (report.criteria.rules = [] ∧
          line = "No admission criteria configured; every student is admitted.") ∨
        (report.criteria.rules ≠ [] ∧ line = "### Rules") ∨
        (report.denied ≠ [] ∧ line = "### Denied students") ∨ line ∈ report.forgedLines := by
  have hempty : line ≠ "" := fun h => hheading (by simp [h])
  have hhead : line ∉ report.headLines := by
    have hother (start rest : String) (h : start ∈ starts) : line ≠ start ++ rest := by
      rintro rfl
      apply hstart start h
      rw [String.toList_append]
      exact List.prefix_append _ _
    unfold headLines
    simp only [String.append_assoc, List.mem_cons, List.not_mem_nil, not_or, hempty,
      not_false_eq_true, true_and, and_true]
    exact ⟨hother _ _ (by simp [starts]), hother _ _ (by simp [starts]),
      hother _ _ (by simp [starts])⟩
  have htitle : ("### " ++ "Rules" : String) = "### Rules" ∧
      ("### " ++ "Denied students" : String) = "### Denied students" := ⟨rfl, rfl⟩
  have hrow := hstart "|" (by simp [starts])
  have hrules : line ∈ report.ruleLines ↔ (report.criteria.rules = [] ∧
      line = "No admission criteria configured; every student is admitted.") ∨
        (report.criteria.rules ≠ [] ∧ line = "### Rules") := by
    unfold ruleLines
    split
    case isTrue hnone =>
      rw [Criteria.isEmpty, List.isEmpty_iff] at hnone
      simp [hnone, hempty]
    case isFalse hsome =>
      rw [Criteria.isEmpty, List.isEmpty_iff] at hsome
      rw [List.mem_append, mem_table_iff hrow, htitle.1]
      simp [hsome, hempty]
  have hdenials : line ∈ report.denialLines ↔
      report.denied ≠ [] ∧ line = "### Denied students" := by
    unfold denialLines
    split
    case isTrue hnone =>
      rw [List.isEmpty_iff] at hnone
      simp [hnone]
    case isFalse hsome =>
      rw [List.isEmpty_iff] at hsome
      rw [List.mem_append, mem_table_iff hrow, htitle.2]
      simp [hsome, hempty]
  rw [linesOf_markdown, List.mem_append, List.mem_append, List.mem_append, or_iff_right hhead,
    hrules, hdenials, report.mem_doubtLines_iff hheading (hstart "- **" (by simp [starts]))]
  simp only [or_assoc]

end Report

namespace Criteria

/-- The Markdown of the report on a course names those students as denied whom its page marks as
    denied, in the same order, and these are the students with a rule that fails. If there are any,
    there is a table with a row for each of them, which is one line of two cells: the student's id,
    and the summaries of exactly the rules that fail, in their order. The title of that table, and
    the line that says that there are no rules, stand nowhere else, unless they come out of the name
    of an assignment that is quoted in a warning. -/
theorem denials_evaluateCourse (criteria : Criteria) (stamp : Report.Stamp)
    (course : CourseResults) :
    let report := criteria.evaluateCourse stamp course
    let denied := criteria.deniedOf course
    (∃ rows : List String,
      linesOf report.markdown = report.headLines ++ report.ruleLines ++
        (if report.summary.denied = 0 then [] else
          ["### Denied students", "", "| Student | Failed rules |", "|---------|--------------|"] ++
            rows ++ [""]) ++
        report.doubtLines.flatMap splitLines ∧
      rows.length = report.summary.denied ∧
      List.Forall₂ (fun student row => lineEnds row = 0 ∧ Markdown.cellCount row = 2 ∧
        Markdown.cellsOf row = [Markdown.cell student.id,
          "<br>".intercalate ((criteria.failuresOn student.results).map (·.summary))] ∧
        criteria.failuresOn student.results ≠ []) denied rows) ∧
    report.page = Markup.page (Page.head report) (Page.body report) ∧
    Page.deniedIn (Page.body report) = denied.map (·.id) ∧
    ("### Denied students" ∈ linesOf report.markdown ↔
      report.summary.denied ≠ 0 ∨ "### Denied students" ∈ report.forgedLines) ∧
    ("No admission criteria configured; every student is admitted." ∈ linesOf report.markdown ↔
      (criteria.rules = [] ∧ report.summary.denied = 0) ∨
        "No admission criteria configured; every student is admitted." ∈ report.forgedLines) := by
  intro report denied
  have hdenied : report.denied = denied.map criteria.evaluateStudent :=
    criteria.denied_evaluateCourse stamp course
  have hcount : report.summary.denied = denied.length :=
    criteria.denied_summary_evaluateCourse stamp course
  have hnone : report.denied = [] ↔ report.summary.denied = 0 := by
    rw [hdenied, hcount, List.map_eq_nil_iff, List.length_eq_zero_iff]
  have hunruled (h : criteria.rules = []) : report.summary.denied = 0 := by
    rw [hcount, List.length_eq_zero_iff]
    simp [denied, deniedOf, h]
  refine ⟨⟨report.denied.map Report.denialRow, ?_, ?_, ?_⟩, Page.page_eq report, ?_, ?_, ?_⟩
  · rw [Report.linesOf_markdown, Report.denialLines_eq]
    simp only [hnone]
  · rw [List.length_map, hdenied, List.length_map, hcount]
  · rw [hdenied, List.map_map, List.forall₂_map_right_iff, List.forall₂_same]
    intro student hstudent
    have hcells := Report.cellsOf_denialRow (criteria.evaluateStudent student)
    refine ⟨Report.lineEnds_denialRow _, ?_, ?_, failuresOn_ne_nil hstudent⟩
    · rw [← Markdown.length_cellsOf, Function.comp_apply, hcells]
      rfl
    · rw [← failed_evaluate]
      exact hcells
  · rw [Page.deniedIn_body, hdenied, List.map_map]
    rfl
  · rw [Report.mem_linesOf_markdown_iff _ (by decide) (by decide)]
    simp [hnone]
  · have hcriteria : report.criteria = criteria := rfl
    rw [Report.mem_linesOf_markdown_iff _ (by decide) (by decide), hcriteria,
      and_iff_left_of_imp hunruled]
    simp

end Criteria

end CourseAdmission
