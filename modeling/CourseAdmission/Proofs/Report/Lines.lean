import CourseAdmission.Proofs.Report.Change
import CourseAdmission.Proofs.Report.Inline

/-!
How many lines a report and a comparison have in Markdown, and how many cells the rows of a
comparison.

The numbers of rules, students and warnings decide both, but for the names that are written as they
are: those of the students in a comparison and those of the assignments in the warnings of a report.
-/

namespace CourseAdmission

open Markdown (Inline inline_literal inline_append)
open Text (lineEnds ofLines)

/-! ## Comparisons -/

/-- The row of a student in a table of changes. -/
def Change.row (change : Change) : String :=
  Markdown.row [change.id, Markdown.cellLines change.deniedBy]

/-- The explanation of a change stays in its cell. -/
def Change.Explained (change : Change) : Prop := Inline (Markdown.cellLines change.deniedBy)

namespace Change

theorem explained_ofDenial (id : String) (denying : Verdict) : (ofDenial id denying).Explained :=
  Markdown.inline_cellLines (List.forall_mem_map.2 fun result _ => result.inline_summary)

/-- The row of a student has another cell for each boundary in the student's name. -/
theorem Explained.cellCount_row {change : Change} (h : change.Explained) :
    Markdown.cellCount change.row = 2 + Markdown.boundaries change.id := by
  rw [row, Markdown.cellCount_row (List.cons_ne_nil _ _)]
  simp [h.boundaries_eq_zero]

end Change

namespace ChangeReport

/-- How many lines the changes have if no name brings in another. -/
def lineCount (criteriaChanged : Bool) (added removed denied admitted : Nat) : Nat :=
  2 + (if criteriaChanged then 2 else 0) + (if 0 < added ∨ 0 < removed then 2 else 0) +
    (if denied = 0 then 0 else denied + 5) + (if admitted = 0 then 0 else admitted + 4)

theorem lineEnds_table (title column : String) (htitle : Inline title) (hcolumn : Inline column)
    {changes : List Change} (h : ∀ change ∈ changes, change.Explained) :
    lineEnds (ofLines (table title column changes)) =
      changes.length + 4 + (changes.map fun change => lineEnds change.id).sum := by
  have hheads : ∀ head ∈ ["Student", column], Inline head :=
    List.forall_mem_cons.2 ⟨inline_literal (by decide), List.forall_mem_singleton.2 hcolumn⟩
  have hcells : ∀ change ∈ changes, ([change.id, Markdown.cellLines change.deniedBy].map
      lineEnds).sum = lineEnds change.id := by
    intro change hmem
    simp [(h change hmem).lineEnds_eq_zero]
  rw [table, Markdown.lineEnds_table htitle hheads, List.map_map, List.length_map]
  simp only [Function.comp_def, List.map_congr_left hcells]
  omega

/-- A table is left out if there is nothing to list, and so are the lines behind it. -/
theorem lineEnds_tableUnlessEmpty (title column : String) (htitle : Inline title)
    (hcolumn : Inline column) {changes : List Change} (h : ∀ change ∈ changes, change.Explained)
    (rest : List String) :
    lineEnds (ofLines (if changes.isEmpty then [] else table title column changes ++ rest)) =
      (if changes.length = 0 then 0 else changes.length + (4 + lineEnds (ofLines rest))) +
        (changes.map fun change => lineEnds change.id).sum := by
  rw [Text.lineEnds_unlessEmpty, Text.lineEnds_ofLines_append,
    lineEnds_table title column htitle hcolumn h]
  by_cases hnone : changes.length = 0
  · rw [if_pos hnone, if_pos hnone, List.length_eq_zero_iff.1 hnone]
    rfl
  · rw [if_neg hnone, if_neg hnone]
    omega

/-- There are the lines that the counts call for, and another for each line end in the names of the
    students in the tables. -/
theorem lineEnds_markdown (changes : ChangeReport)
    (hdenied : ∀ change ∈ changes.newlyDenied, change.Explained)
    (hadmitted : ∀ change ∈ changes.newlyAdmitted, change.Explained) :
    lineEnds changes.markdown =
      lineCount changes.criteriaChanged changes.newStudents changes.removedStudents
        changes.newlyDenied.length changes.newlyAdmitted.length +
      ((changes.newlyDenied ++ changes.newlyAdmitted).map
        fun change => lineEnds change.id).sum := by
  have hsummary : Inline ("**Summary:** " ++ toString changes.newlyDenied.length ++
      " newly denied, " ++ toString changes.newlyAdmitted.length ++ " newly admitted, " ++
      toString changes.unchanged ++ " unchanged") := by
    simp only [inline_append, Markdown.inline_toString, and_true]
    and_intros <;> exact inline_literal (by decide)
  have hcriteria : Inline "_Admission criteria differ between the two reports._" :=
    inline_literal (by decide)
  have hstudents : Inline (toString changes.newStudents ++ " new students, " ++
      toString changes.removedStudents ++ " removed students") := by
    simp only [inline_append, Markdown.inline_toString, true_and, and_true]
    and_intros <;> exact inline_literal (by decide)
  -- The table of the newly denied is followed by an empty line, the other one ends the text.
  have hdeniedTable := lineEnds_tableUnlessEmpty "Newly denied" "Failed rules"
    (inline_literal (by decide)) (inline_literal (by decide)) hdenied [""]
  have hadmittedTable := lineEnds_tableUnlessEmpty "Newly admitted" "Previously failed rules"
    (inline_literal (by decide)) (inline_literal (by decide)) hadmitted []
  rw [List.append_nil] at hadmittedTable
  unfold markdown markdownLines lineCount
  rw [Text.lineEnds_ofLines_append, Text.lineEnds_ofLines_append, Text.lineEnds_ofLines_append,
    Text.lineEnds_ofLines_append, hdeniedTable, hadmittedTable, List.map_append, List.sum_append]
  simp only [apply_ite ofLines, apply_ite lineEnds, Text.lineEnds_ofLines_cons,
    Text.lineEnds_ofLines_nil, hsummary.lineEnds_eq_zero, hcriteria.lineEnds_eq_zero,
    hstudents.lineEnds_eq_zero, Text.lineEnds_empty, Nat.zero_add, Nat.add_zero, Nat.reduceAdd]
  omega

theorem sublist_tableUnlessEmpty (title column : String) (changes : List Change)
    (rest : List String) :
    (changes.map (·.row)).Sublist
      (if changes.isEmpty then [] else table title column changes ++ rest) := by
  cases changes with
  | nil => exact List.Sublist.refl []
  | cons change changes =>
    rw [List.isEmpty_cons, if_neg Bool.false_ne_true, table, Markdown.table, List.map_map]
    exact (List.sublist_append_right _ _).trans (List.sublist_append_left _ _)

/-- The rows of the students, first of those newly denied, are among the lines. -/
theorem sublist_markdownLines (changes : ChangeReport) :
    ((changes.newlyDenied ++ changes.newlyAdmitted).map (·.row)).Sublist changes.markdownLines := by
  have hdenied := sublist_tableUnlessEmpty "Newly denied" "Failed rules" changes.newlyDenied [""]
  have hadmitted := sublist_tableUnlessEmpty "Newly admitted" "Previously failed rules"
    changes.newlyAdmitted []
  rw [List.append_nil] at hadmitted
  unfold markdownLines
  rw [List.map_append]
  exact (hdenied.trans (List.sublist_append_right _ _)).append hadmitted

end ChangeReport

/-! ## Reports -/

theorem Verdict.hasWarnings_iff {verdict : Verdict} :
    verdict.hasWarnings = true ↔ verdict.warnings ≠ [] := by
  simp [hasWarnings, RuleResult.hasWarnings, warnings]

namespace Report

/-- How many lines the report has if no name brings in another. -/
def lineCount (unruled : Bool) (rules denied warnings : Nat) : Nat :=
  6 + (if unruled then 2 else rules + 5) + (if denied = 0 then 0 else denied + 5) +
    (if warnings = 0 then 0 else warnings + 2)

variable (report : Report)

theorem lineEnds_ruleLines : lineEnds (ofLines report.ruleLines) =
    if report.criteria.isEmpty then 2 else report.summary.rules.length + 5 := by
  have hunruled : Inline "No admission criteria configured; every student is admitted." :=
    inline_literal (by decide)
  have hheads : ∀ head ∈ ["#", "Rule", "Type", "Passed", "Failed"], Inline head := by
    simp only [List.forall_mem_cons, List.not_mem_nil, false_implies, implies_true, and_true]
    and_intros <;> exact inline_literal (by decide)
  have hcells (tally : RuleTally) : ∀ cell ∈ tally.cells, lineEnds cell = 0 := by
    have hinline : ∀ cell ∈ tally.cells, Inline cell := by
      simp only [RuleTally.cells, List.forall_mem_cons, Markdown.inline_toString,
        RuleKind.inline_tag, AssignmentType.inline_tag, List.not_mem_nil, false_implies,
        implies_true, and_true]
    exact fun cell hmem => (hinline cell hmem).lineEnds_eq_zero
  unfold ruleLines
  split
  · simp only [Text.lineEnds_ofLines_cons, Text.lineEnds_ofLines_nil, hunruled.lineEnds_eq_zero,
      Text.lineEnds_empty]
  · rw [Text.lineEnds_ofLines_append, Markdown.lineEnds_table_of_cells (inline_literal (by decide))
      hheads (List.forall_mem_map.2 fun tally _ => hcells tally), List.length_map]
    rfl

theorem lineEnds_of_mem_denialCells (student : StudentVerdict) :
    ∀ cell ∈ denialCells student, lineEnds cell = 0 := by
  have hfailed : ∀ text ∈ student.verdict.failed.map (fun result => Markdown.cell result.summary),
      lineEnds text = 0 := List.forall_mem_map.2 fun result _ => Markdown.lineEnds_cell _
  refine List.forall_mem_cons.2 ⟨Markdown.lineEnds_cell _, List.forall_mem_singleton.2 ?_⟩
  rw [Markdown.lineEnds_cellLines]
  exact List.sum_eq_zero_iff_forall_eq_nat.2 (List.forall_mem_map.2 hfailed)

theorem lineEnds_denialLines : lineEnds (ofLines report.denialLines) =
    if report.denied.length = 0 then 0 else report.denied.length + 5 := by
  have hheads : ∀ head ∈ ["Student", "Failed rules"], Inline head := by
    simp only [List.forall_mem_cons, List.not_mem_nil, false_implies, implies_true, and_true]
    and_intros <;> exact inline_literal (by decide)
  unfold denialLines
  rw [Text.lineEnds_unlessEmpty, Text.lineEnds_ofLines_append,
    Markdown.lineEnds_table_of_cells (inline_literal (by decide)) hheads
      (List.forall_mem_map.2 fun student _ => lineEnds_of_mem_denialCells student),
    List.length_map]
  rfl

/-- The warnings on the data of all students. -/
def warnings : List DataWarning := report.students.flatMap (·.verdict.warnings)

theorem isEmpty_warned_iff :
    (report.students.filter (·.verdict.hasWarnings)).isEmpty = true ↔
      report.warnings.length = 0 := by
  rw [List.length_eq_zero_iff, warnings, List.flatMap_eq_nil_iff, List.isEmpty_iff,
    List.filter_eq_nil_iff]
  simp only [Verdict.hasWarnings_iff, not_not]

/-- A student without warnings has no lines, so it makes no difference to leave such students
    out. -/
theorem flatMap_warningLines_warned :
    (report.students.filter (·.verdict.hasWarnings)).flatMap warningLines =
      report.students.flatMap warningLines := by
  induction report.students with
  | nil => rfl
  | cons student students ih =>
    rw [List.flatMap_cons, ← ih]
    by_cases hwarned : student.verdict.hasWarnings = true
    · rw [List.filter_cons, if_pos hwarned, List.flatMap_cons]
    · have hnone : warningLines student = [] := by
        rw [Verdict.hasWarnings_iff, not_not] at hwarned
        rw [warningLines, hwarned, List.map_nil]
      rw [List.filter_cons, if_neg hwarned, hnone, List.nil_append]

/-- A warning has one line, and another for each line end in the names of the assignments. -/
theorem lineEnds_warningLines (student : StudentVerdict) :
    lineEnds (ofLines (warningLines student)) = student.verdict.warnings.length +
      ((student.verdict.warnings.flatMap (·.ids)).map lineEnds).sum := by
  have hopening : lineEnds "- **" = 0 := rfl
  have hclosing : lineEnds "**: " = 0 := rfl
  unfold warningLines
  induction student.verdict.warnings with
  | nil => rfl
  | cons warning warnings ih =>
    rw [List.map_cons, Text.lineEnds_ofLines_cons, ih, Text.lineEnds_append, Text.lineEnds_append,
      Text.lineEnds_append, hopening, hclosing, Markdown.lineEnds_cell,
      DataWarning.lineEnds_message, List.flatMap_cons, List.map_append, List.sum_append,
      List.length_cons]
    omega

theorem lineEnds_flatMap_warningLines :
    lineEnds (ofLines (report.students.flatMap warningLines)) = report.warnings.length +
      ((report.warnings.flatMap (·.ids)).map lineEnds).sum := by
  unfold warnings
  induction report.students with
  | nil => rfl
  | cons student students ih =>
    rw [List.flatMap_cons, Text.lineEnds_ofLines_append, lineEnds_warningLines, ih,
      List.flatMap_cons, List.flatMap_append, List.map_append, List.sum_append, List.length_append]
    omega

theorem lineEnds_doubtLines : lineEnds (ofLines report.doubtLines) =
    (if report.warnings.length = 0 then 0 else report.warnings.length + 2) +
      ((report.warnings.flatMap (·.ids)).map lineEnds).sum := by
  have htitle : Inline "### Data warnings" := inline_literal (by decide)
  unfold doubtLines
  simp only [isEmpty_warned_iff, flatMap_warningLines_warned]
  by_cases hnone : report.warnings.length = 0
  · rw [if_pos hnone, if_pos hnone, List.length_eq_zero_iff.1 hnone]
    rfl
  · rw [if_neg hnone, if_neg hnone, Text.lineEnds_ofLines_append, lineEnds_flatMap_warningLines,
      Text.lineEnds_ofLines_cons, Text.lineEnds_ofLines_cons, htitle.lineEnds_eq_zero,
      Text.lineEnds_empty, Text.lineEnds_ofLines_nil]
    omega

/-- The lines above the rules. -/
def headLines : List String :=
  ["# Admission report: " ++ Markdown.cell report.courseId, "",
    "Generated " ++ report.createdAt.display ++ " (report `" ++ report.id.toText ++ "`)", "",
    "**Summary:** " ++ toString report.summary.admitted ++ " of " ++
      toString report.summary.total ++ " students admitted (" ++
      rateText report.summary.admissionRate ++ "), " ++
      toString report.summary.denied ++ " denied, " ++ toString report.summary.withWarnings ++
      " with data warnings", ""]

theorem markdownLines_eq : report.markdownLines =
    report.headLines ++ report.ruleLines ++ report.denialLines ++ report.doubtLines := rfl

theorem lineEnds_of_mem_headLines : ∀ line ∈ report.headLines, lineEnds line = 0 := by
  have hcourse : lineEnds ("# Admission report: " ++ Markdown.cell report.courseId) = 0 := by
    have htitle : Inline "# Admission report: " := inline_literal (by decide)
    rw [Text.lineEnds_append, htitle.lineEnds_eq_zero, Markdown.lineEnds_cell]
  have hstamp : Inline ("Generated " ++ report.createdAt.display ++ " (report `" ++
      report.id.toText ++ "`)") := by
    simp only [inline_append, Instant.inline_display, Uuid.inline_toText, and_true]
    and_intros <;> exact inline_literal (by decide)
  have hsummary : Inline ("**Summary:** " ++ toString report.summary.admitted ++ " of " ++
      toString report.summary.total ++ " students admitted (" ++
      rateText report.summary.admissionRate ++ "), " ++
      toString report.summary.denied ++ " denied, " ++ toString report.summary.withWarnings ++
      " with data warnings") := by
    simp only [inline_append, Markdown.inline_toString, inline_rateText, and_true]
    and_intros <;> exact inline_literal (by decide)
  unfold headLines
  simp only [List.forall_mem_cons, hcourse, hstamp.lineEnds_eq_zero, hsummary.lineEnds_eq_zero,
    Text.lineEnds_empty, List.not_mem_nil, false_implies, implies_true, and_true]

/-- There are the lines that the counts call for, and another for each line end in the names of the
    assignments in the warnings. -/
theorem lineEnds_markdown : lineEnds report.markdown =
    lineCount report.criteria.isEmpty report.summary.rules.length report.denied.length
        report.warnings.length + ((report.warnings.flatMap (·.ids)).map lineEnds).sum := by
  have hhead : lineEnds (ofLines report.headLines) = 6 :=
    Text.lineEnds_ofLines_eq_length_iff.2 report.lineEnds_of_mem_headLines
  unfold lineCount
  rw [markdown, markdownLines_eq, Text.lineEnds_ofLines_append, Text.lineEnds_ofLines_append,
    Text.lineEnds_ofLines_append, hhead, lineEnds_ruleLines, lineEnds_denialLines,
    lineEnds_doubtLines]
  omega

/-! ## Both -/

theorem explained_of_mem_compare {current baseline : Report} {change : Change}
    (h : change ∈ (current.compare baseline).newlyDenied ++
      (current.compare baseline).newlyAdmitted) : change.Explained := by
  rcases List.mem_append.1 h with hdenied | hadmitted
  · obtain ⟨student, -, before, -, -, -, rfl⟩ := mem_newlyDenied_compare_iff.1 hdenied
    exact Change.explained_ofDenial student.id student.verdict
  · obtain ⟨student, -, before, -, -, -, rfl⟩ := mem_newlyAdmitted_compare_iff.1 hadmitted
    exact Change.explained_ofDenial student.id before

/-- A comparison has the lines that its counts call for and one more for each line end in the name
    of a student in its tables; the row of such a student has two cells and one more for each
    boundary in the name. A report has the lines that the numbers of its rules, of the denied and of
    the warnings call for, and one more for each line end in the name of an assignment in a warning;
    the names of the course and of the students add nothing to it. -/
theorem lineEnds_cellCount_markdown (current baseline report : Report) :
    let changes := current.compare baseline
    let changed := changes.newlyDenied ++ changes.newlyAdmitted
    lineEnds changes.markdown =
        ChangeReport.lineCount changes.criteriaChanged changes.newStudents changes.removedStudents
            changes.newlyDenied.length changes.newlyAdmitted.length +
          (changed.map fun change => lineEnds change.id).sum ∧
      (changed.map (·.row)).Sublist changes.markdownLines ∧
      changed.map (fun change => Markdown.cellCount change.row) =
        changed.map (fun change => 2 + Markdown.boundaries change.id) ∧
      lineEnds report.markdown =
        lineCount report.criteria.isEmpty report.summary.rules.length report.denied.length
            report.warnings.length +
          ((report.warnings.flatMap (·.ids)).map lineEnds).sum := by
  intro changes changed
  have hexplained : ∀ change ∈ changed, change.Explained := fun change => explained_of_mem_compare
  refine ⟨changes.lineEnds_markdown ?_ ?_, changes.sublist_markdownLines, ?_,
    report.lineEnds_markdown⟩
  · exact fun change hmem => hexplained change (List.mem_append_left _ hmem)
  · exact fun change hmem => hexplained change (List.mem_append_right _ hmem)
  · exact List.map_congr_left fun change hmem => (hexplained change hmem).cellCount_row

end Report

end CourseAdmission
