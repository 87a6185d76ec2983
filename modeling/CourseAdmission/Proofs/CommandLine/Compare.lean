import CourseAdmission.Proofs.CommandLine.Arguments
import CourseAdmission.Proofs.CommandLine.Writing
import CourseAdmission.Proofs.Report.Decisions
import CourseAdmission.Proofs.Report.Loading

/-!
Comparing the reports that two batches have left.

A comparison that is asked to fail on new denials does so exactly if a student is admitted by the
one evaluation and denied by the other. Whether it is asked to does not change what it prints.
-/

namespace CourseAdmission

namespace CommandLine

variable {disk : Disk} {environment : Environment} {asked : Option String} {settings : Settings}
  {baseline current : String} {format : ChangeFormat}

theorem loadReport_eq_ok {path text : String} {r : Report} (hread : disk.read path = .ok text)
    (hload : Report.load text = .ok r) : disk.loadReport path = .ok r := by
  rw [Disk.loadReport, Disk.readAs, hread, mapError_ok, ok_bind, hload]
  rfl

/-- A comparison of reports that can be loaded prints their changes, and fails if it is asked to and
    there are new denials. -/
theorem run_compare {b c : Report} (stamp : Report.Stamp) (schedule : List Batch.Step)
    (hsettings : Settings.load disk environment asked = .ok settings)
    (hbaseline : disk.loadReport baseline = .ok b) (hcurrent : disk.loadReport current = .ok c)
    (failOnNewDenials : Bool) :
    Invocation.run disk environment stamp schedule
        ⟨asked, .compare baseline current format failOnNewDenials⟩ =
      .answer disk (changeLines (c.compare b) format)
        (failOnNewDenials && (c.compare b).hasNewDenials) := by
  have hpair : (do return (← disk.loadReport baseline, ← disk.loadReport current) :
      Except LoadError (Report × Report)) = .ok (b, c) := by
    rw [hbaseline, hcurrent]
    rfl
  rw [Invocation.run, hsettings]
  dsimp only [Command.run]
  unfold CommandLine.compare
  rw [hpair]

theorem exitCode_answer (disk : Disk) (output : List String) (denied : Bool) :
    (Outcome.answer disk output denied).exitCode = if denied then 1 else 0 := by
  cases denied <;> rfl

/-- Of the reports that two batches have left, the first one on a course that lists each student
    once, a comparison with the flag for new denials fails if and only if a student of both courses
    is admitted by the first criteria on the first results and denied by the second ones on the
    second results. What it prints is the same as without the flag. -/
theorem exitCode_compare_reports {first second : BatchRun} {firstCriteria secondCriteria : Criteria}
    {firstCourse secondCourse : CourseResults} {firstText secondText : String}
    (hfirst : first.Reports firstCriteria firstCourse firstText)
    (hsecond : second.Reports secondCriteria secondCourse secondText)
    (hnodup : (firstCourse.students.map (·.id)).Nodup)
    (hfirstLoads : ∃ r, Report.load firstText = .ok r)
    (hsecondLoads : ∃ r, Report.load secondText = .ok r)
    (hbaseline : disk.read baseline = .ok firstText)
    (hcurrent : disk.read current = .ok secondText)
    (hsettings : Settings.load disk environment asked = .ok settings)
    {arguments : List String} {fails : Bool}
    (harguments : Invocation.ofArguments arguments =
      .ok ⟨asked, .compare baseline current format fails⟩)
    (hflag : "--fail-on-new-denials" ∈ arguments)
    (stamp : Report.Stamp) (schedule : List Batch.Step) :
    let outcome (failOnNewDenials : Bool) := Invocation.run disk environment stamp schedule
      ⟨asked, .compare baseline current format failOnNewDenials⟩
    let newlyDenied := ∃ s ∈ firstCourse.students, ∃ t ∈ secondCourse.students, s.id = t.id ∧
      (firstCriteria.evaluate s.results).admitted = true ∧
        (secondCriteria.evaluate t.results).admitted = false
    ((outcome fails).exitCode = 1 ↔ newlyDenied) ∧
      (¬newlyDenied → (outcome fails).exitCode = 0) ∧
      (outcome fails).outputText = (outcome false).outputText := by
  intro outcome newlyDenied
  obtain ⟨b, hb⟩ := hfirstLoads
  obtain ⟨c, hc⟩ := hsecondLoads
  have houtcome (failOnNewDenials : Bool) : outcome failOnNewDenials = .answer disk
      (changeLines (c.compare b) format) (failOnNewDenials && (c.compare b).hasNewDenials) :=
    run_compare stamp schedule hsettings (loadReport_eq_ok hbaseline hb)
      (loadReport_eq_ok hcurrent hc) failOnNewDenials
  rw [hfirst.text_eq] at hb
  rw [hsecond.text_eq] at hc
  have hdenials : (c.compare b).hasNewDenials = true ↔ newlyDenied :=
    Report.hasNewDenials_compare_iff_of_load_save hnodup hb hc
  obtain rfl : fails = true := (failOnNewDenials_iff harguments).2 hflag
  rw [houtcome true, exitCode_answer, Bool.true_and]
  refine ⟨?_, fun hnone => ?_, ?_⟩
  · rw [← hdenials]
    cases (c.compare b).hasNewDenials <;> simp
  · rw [if_neg (mt hdenials.1 hnone)]
  · rw [houtcome false]
    rfl

/-! A student without results, when the criteria begin to ask for half of the homework -/

def halfOfAverage : Criteria :=
  ⟨[.overall .homework ⟨50, .none, Binary64.isPercent_fifty, trivial⟩]⟩

def oneStudent : CourseResults := ⟨"", [⟨"a", []⟩]⟩

def stampOfEpoch : Report.Stamp :=
  ⟨.nil, (Instant.ofUnixTime? 0).get (by decide +kernel), 0⟩

/-- A working folder with these files. -/
def filesOf (files : List (String × String)) : Disk :=
  files.foldl (fun disk (name, text) => disk.withEntry [name] (.file text)) (.empty [])

/-- The files of two batches; what they hold is written as arrays of fields. -/
def filesOfBatches : Disk :=
  filesOf [("old.json", "[]"),
    ("new.json", "[[[\"REQUIRED_PERCENT_OVERALL\",\"HOMEWORK\",50,[\"NONE\",null],null,null]]]"),
    ("course.json", "[\"\",[[\"a\"]]]")]

def batchOf (criteria : String) : BatchRun :=
  ⟨filesOfBatches, [], stampOfEpoch, [], none, criteria, "course.json", none, none, none⟩

theorem reports_old : (batchOf "old.json").Reports .empty oneStudent
    (Criteria.empty.evaluateCourse stampOfEpoch oneStudent).save :=
  BatchRun.reports_of_saveReports (show _ = Except.ok Settings.default by decide)
    (by decide) (by decide) (by decide) (by decide) (by decide)

theorem reports_new : (batchOf "new.json").Reports halfOfAverage oneStudent
    (halfOfAverage.evaluateCourse stampOfEpoch oneStudent).save :=
  BatchRun.reports_of_saveReports (show _ = Except.ok Settings.default by decide +kernel)
    (by decide +kernel) (by decide +kernel) (by decide) (by decide) (by decide +kernel)

/-- The reports of both batches. -/
def filesOfReports : Disk :=
  filesOf [("old.json", (Criteria.empty.evaluateCourse stampOfEpoch oneStudent).save),
    ("new.json", (halfOfAverage.evaluateCourse stampOfEpoch oneStudent).save)]

theorem exitCode_compare_halfOfAverage :
    (Invocation.run filesOfReports [] stampOfEpoch []
        ⟨none, .compare "old.json" "new.json" .text true⟩).exitCode = 1 ∧
      (Invocation.run filesOfReports [] stampOfEpoch []
        ⟨none, .compare "new.json" "old.json" .text true⟩).exitCode = 0 := by
  have holdLoads : ∃ r, Report.load (Criteria.empty.evaluateCourse stampOfEpoch oneStudent).save =
      .ok r := (Report.exists_load_save_iff (by decide +kernel)).2 (by decide +kernel)
  have hnewLoads : ∃ r, Report.load (halfOfAverage.evaluateCourse stampOfEpoch oneStudent).save =
      .ok r := (Report.exists_load_save_iff (by decide +kernel)).2 (by decide +kernel)
  have hold : filesOfReports.read "old.json" =
      .ok (Criteria.empty.evaluateCourse stampOfEpoch oneStudent).save :=
    Disk.read_eq_ok_iff.2 ⟨["old.json"], by decide +kernel, by
      simp [filesOfReports, filesOf, Disk.withEntry, Disk.empty, FileTree.put,
        FileTree.at?_folder_cons, FileTree.at?_nil, FileTree.setEntry]⟩
  have hnew : filesOfReports.read "new.json" =
      .ok (halfOfAverage.evaluateCourse stampOfEpoch oneStudent).save :=
    Disk.read_eq_ok_iff.2 ⟨["new.json"], by decide +kernel, by
      simp [filesOfReports, filesOf, Disk.withEntry, Disk.empty, FileTree.put,
        FileTree.at?_folder_cons, FileTree.at?_nil, FileTree.setEntry, FileTree.lookup_cons_eq_ite]⟩
  have hsettings : Settings.load filesOfReports [] none = .ok .default := by decide +kernel
  have harguments {baseline current : String} (hbaseline : baseline ≠ "")
      (hcurrent : current ≠ "") :
      Invocation.ofArguments (compareArguments baseline current "text" true) =
        .ok ⟨none, .compare baseline current .text true⟩ :=
    ofArguments_compareArguments hbaseline hcurrent "text" true
  constructor
  · exact (exitCode_compare_reports reports_old reports_new (by decide) holdLoads hnewLoads hold
      hnew hsettings (harguments (by decide) (by decide)) (by decide) stampOfEpoch []).1.2
      (by decide +kernel)
  · exact (exitCode_compare_reports reports_new reports_old (by decide) hnewLoads holdLoads hnew
      hold hsettings (harguments (by decide) (by decide)) (by decide) stampOfEpoch []).2.1
      (by decide +kernel)

end CommandLine

end CourseAdmission
