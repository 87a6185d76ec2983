import CourseAdmission.CommandLine.NearMisses
import CourseAdmission.Proofs.Files.Disk
import CourseAdmission.Proofs.Report.Evaluated
import CourseAdmission.Proofs.Report.NearMiss

/-!
What is printed on the near misses of a course that has been evaluated, saved and loaded.

A larger margin adds rows and takes none away. With no margin there are none, and with an unbounded
one there is a row for each average that is missed.
-/

namespace CourseAdmission.CommandLine.NearMisses

/-- The lines above the rows. -/
def header (report : Report) (margin : Binary64) : List String := (lines report margin).take 6

/-- The rows of the near misses. -/
def rows (report : Report) (margin : Binary64) : List String := (report.nearMisses margin).map line

theorem lines_eq (report : Report) (margin : Binary64) : lines report margin =
    header report margin ++
      if rows report margin = [] then ["(none)"] else rows report margin := by
  rw [header, rows, lines]
  cases report.nearMisses margin <;> simp

theorem run_eq_ok {disk : Disk} {path : String} {arguments : List String} {report : Report}
    {margin : Binary64} (hmargin : marginOf arguments.head? = .ok margin)
    (hread : disk.read path = .ok report.save) (hload : Report.load report.save = .ok report) :
    run disk (path :: arguments) = .ok (lines report margin) := by
  have hreport : disk.loadReport path = .ok report := by
    rw [Disk.loadReport, Disk.readAs, hread, mapError_ok, ok_bind, hload, mapError_ok]
  rw [run, hmargin, ok_bind, hreport, mapError_ok, ok_bind]
  rfl

variable {criteria : Criteria} {stamp : Report.Stamp} {course : CourseResults}

/-- Let the report on a course be saved, with doubles that all come back when it is loaded. Then its
    near misses are printed for every margin. A larger margin gives the same rows and maybe others
    among them. A margin that is not positive gives none. An unbounded margin gives a row for each
    failed rule whose demand on the average is not met, in the order of the students and of the
    rules. -/
theorem rows_evaluateCourse (hcountable : Countable criteria stamp course)
    (hdoubles : ∀ x ∈ (criteria.evaluateCourse stamp course).doubles, x.Survives)
    {disk : Disk} {path : String}
    (hread : disk.read path = .ok (criteria.evaluateCourse stamp course).save) :
    let report := criteria.evaluateCourse stamp course
    (∀ arguments margin, marginOf arguments.head? = .ok margin → run disk (path :: arguments) =
      .ok (header report margin ++
        if rows report margin = [] then ["(none)"] else rows report margin)) ∧
      (∀ margin greater, margin ≤ greater → (rows report margin).Sublist (rows report greater)) ∧
      (∀ margin, margin ≤ 0 → rows report margin = []) ∧
      rows report (.infinite false) =
        course.students.flatMap fun student => (NearMiss.ofStudent criteria student).map line := by
  intro report
  have hmisses (margin : Binary64) : report.nearMisses margin =
      (course.students.flatMap (NearMiss.ofStudent criteria)).filter (·.isWithin margin) :=
    Report.nearMisses_evaluateCourse criteria stamp course margin
  have hmissed (miss : NearMiss)
      (hmiss : miss ∈ course.students.flatMap (NearMiss.ofStudent criteria)) :
      miss.achieved.isFinite = true ∧ miss.required.isFinite = true ∧
        ¬miss.required ≤ miss.achieved :=
    NearMiss.finite_of_mem (fun x hx => (hdoubles x hx).1) hmiss
  refine ⟨fun arguments margin hmargin => ?_, fun margin greater hle => ?_, fun margin hle => ?_,
    ?_⟩
  · have hload : Report.load report.save = .ok report :=
      (Report.load_save_eq_iff hcountable.fits).1.2 hdoubles
    rw [run_eq_ok hmargin hread hload, lines_eq]
  · rw [rows, rows, hmisses, hmisses]
    refine List.Sublist.map _ (List.monotone_filter_right _ fun miss hwithin => ?_)
    rw [NearMiss.isWithin, decide_eq_true_iff] at hwithin ⊢
    exact Binary64.le_trans hwithin hle
  · rw [rows, hmisses, List.map_eq_nil_iff, List.filter_eq_nil_iff]
    intro miss hmiss
    obtain ⟨hachieved, hrequired, hlt⟩ := hmissed miss hmiss
    simpa [NearMiss.isWithin] using Binary64.not_sub_le hachieved hrequired hlt hle
  · have hall : (course.students.flatMap (NearMiss.ofStudent criteria)).filter
        (·.isWithin (.infinite false)) = course.students.flatMap (NearMiss.ofStudent criteria) := by
      rw [List.filter_eq_self]
      intro miss hmiss
      obtain ⟨hachieved, hrequired, hlt⟩ := hmissed miss hmiss
      simpa [NearMiss.isWithin] using Binary64.sub_le_infinite hachieved hrequired hlt
    rw [rows, hmisses, hall, List.map_flatMap]

/-! A student who misses one average and fails another rule on the share of passed results only -/

def missedAndShort : Criteria :=
  ⟨[.overall .homework ⟨80, .up, by decide +kernel, trivial⟩,
    .passedShare .homework ⟨50, .none, Binary64.isPercent_fifty, trivial⟩
      ⟨100, .none, by decide +kernel, trivial⟩]⟩

def oneFailure : CourseResults :=
  ⟨"", [⟨"ann", [⟨"first", .homework, 70, true⟩, ⟨"second", .homework, 80, false⟩]⟩]⟩

/-- The report stands in the working folder. -/
def savedFailure : Disk :=
  ⟨.folder [("report.json",
    .file (missedAndShort.evaluateCourse ⟨.nil, .epoch, 0⟩ oneFailure).save)], []⟩

theorem rows_missedAndShort :
    let report := missedAndShort.evaluateCourse ⟨.nil, .epoch, 0⟩ oneFailure
    Countable missedAndShort ⟨.nil, .epoch, 0⟩ oneFailure ∧
      (∀ x ∈ report.doubles, x.Survives) ∧
      savedFailure.read "report.json" = .ok report.save ∧
      rows report 0 = [] ∧
      (rows report 4).Sublist (rows report 5) ∧
      rows report (.infinite false) = [line ⟨"ann", 0, 75, 80⟩] := by
  intro report
  have hcountable : Countable missedAndShort ⟨.nil, .epoch, 0⟩ oneFailure :=
    ⟨by decide, by decide, by decide, by decide⟩
  have hdoubles : ∀ x ∈ report.doubles, x.Survives := by decide +kernel
  have hread : savedFailure.read "report.json" = .ok report.save :=
    Disk.read_eq_ok_iff.2 ⟨["report.json"], by decide +kernel, rfl⟩
  obtain ⟨-, hmore, hnone, hall⟩ := rows_evaluateCourse hcountable hdoubles hread
  refine ⟨hcountable, hdoubles, hread, hnone 0 (by decide +kernel),
    hmore 4 5 (by decide +kernel), ?_⟩
  have hmissed : oneFailure.students.flatMap (NearMiss.ofStudent missedAndShort) =
      [⟨"ann", 0, 75, 80⟩] := by decide +kernel
  rw [hall, ← List.map_flatMap, hmissed]
  rfl

end CourseAdmission.CommandLine.NearMisses
