import CourseAdmission.CommandLine.Run
import CourseAdmission.Proofs.Files.Disk
import CourseAdmission.Proofs.Report.Batch

/-!
The reports that a batch leaves on the disk.

The JSON report is written first, and the other reports have other names. So once it is written it
stays, even if one of the others cannot be written, and it holds the verdicts on the course's
students one after the other, whatever the schedule.
-/

namespace CourseAdmission.CommandLine

variable {disk disk' : Disk} {folder text : String} {report : Report} {settings : Settings}

namespace ReportFile

theorem isEntryName_fileName (file : ReportFile) : Disk.IsEntryName file.fileName := by
  cases file <;> decide

theorem fileName_ne {file other : ReportFile} (h : file ≠ other) :
    file.fileName ≠ other.fileName := by
  cases file <;> cases other <;> simp_all [fileName]

/-- Where the report is among others it is the first. -/
theorem ofFormat_of_mem {format : ReportFormat} (h : .json ∈ ofFormat format) :
    ∃ others, ofFormat format = .json :: others ∧ .json ∉ others := by
  cases format with
  | json => exact ⟨[], rfl, by simp⟩
  | all => exact ⟨[.html, .markdown], rfl, by simp⟩
  | html => simp [ofFormat] at h
  | markdown => simp [ofFormat] at h

end ReportFile

theorem writeReports_cons (disk : Disk) (folder : String) (report : Report) (file : ReportFile)
    (files : List ReportFile) :
    writeReports disk folder report (file :: files) =
      match disk.write (Path.join folder file.fileName) (file.content report) with
      | .error cause =>
        ([], .failed (.report file (Path.join folder file.fileName) cause), disk)
      | .ok disk' =>
        let (lines, ending, disk) := writeReports disk' folder report files
        ((file.savedLabel ++ Path.join folder file.fileName) :: lines, ending, disk) := by
  rfl

/-- A report that is on the disk stays there while other reports are written. -/
theorem read_writeReports {file : ReportFile} {others : List ReportFile} (hfile : file ∉ others)
    (hread : disk.read (Path.join folder file.fileName) = .ok text) :
    (writeReports disk folder report others).2.2.read (Path.join folder file.fileName) =
      .ok text := by
  induction others generalizing disk with
  | nil => exact hread
  | cons other others ih =>
    rw [List.mem_cons, not_or] at hfile
    rw [writeReports_cons]
    split
    case h_1 => exact hread
    case h_2 disk' hwrite =>
      obtain ⟨place, hplace, -⟩ := Disk.read_eq_ok_iff.1 hread
      have helse := Disk.locate_join_ne file.isEntryName_fileName other.isEntryName_fileName
        (ReportFile.fileName_ne hfile.1) hplace
      exact ih hfile.2 (Disk.read_write_of_ne hwrite (Ne.symm helse) hread)

/-- The run is not over before the JSON report is written: it is done, or failed with another
    report. -/
def Ending.AfterJson (ending : Ending) : Prop :=
  ending = .done ∨ ∃ file path cause, file ≠ .json ∧ ending = .failed (.report file path cause)

/-- The JSON report is written with the text that it is kept as. -/
theorem read_saveReports (hjson : .json ∈ ReportFile.ofFormat settings.format)
    (hending : (saveReports disk settings report).2.1.AfterJson) :
    (saveReports disk settings report).2.2.read
      (Path.join settings.output ReportFile.json.fileName) = .ok report.save := by
  obtain ⟨others, hfiles, hothers⟩ := ReportFile.ofFormat_of_mem hjson
  rw [saveReports] at hending ⊢
  split at hending
  case h_1 => simp [Ending.AfterJson] at hending
  case h_2 disk' hfolders =>
    rw [hfiles, writeReports_cons] at hending ⊢
    cases hwrite : disk'.write (Path.join settings.output ReportFile.json.fileName)
        (ReportFile.content report .json) with
    | error cause =>
      rw [hwrite] at hending
      rcases hending with hdone | ⟨file, path, cause, hother, heq⟩
      · cases hdone
      · cases heq
        exact absurd rfl hother
    | ok written =>
      rw [hwrite] at hending
      exact read_writeReports hothers (Disk.read_write_self hwrite)

/-- A run of the program that evaluates a course: what it finds, and what it is asked for. -/
structure BatchRun where
  disk : Disk
  environment : Environment
  stamp : Report.Stamp
  schedule : List Batch.Step
  settings : Option String
  criteria : String
  results : String
  workers : Option Nat
  output : Option String
  format : Option ReportFormat

namespace BatchRun

def outcome (run : BatchRun) : Outcome :=
  Invocation.run run.disk run.environment run.stamp run.schedule
    ⟨run.settings, .batch run.criteria run.results run.workers run.output run.format⟩

/-- The run loads the criteria and the course, and leaves the text as its JSON report. -/
structure Reports (run : BatchRun) (criteria : Criteria) (course : CourseResults)
    (text : String) : Prop where
  criteria : run.disk.loadCriteria run.criteria = .ok criteria
  course : run.disk.loadCourse run.results = .ok course
  written : ∃ loaded, Settings.load run.disk run.environment run.settings = .ok loaded ∧
    let settings := batchSettings loaded run.workers run.output run.format
    .json ∈ ReportFile.ofFormat settings.format ∧ run.outcome.ending.AfterJson ∧
      run.outcome.disk.read (Path.join settings.output ReportFile.json.fileName) = .ok text

variable {run : BatchRun} {criteria : Criteria} {course : CourseResults}

section

variable {loaded : Settings}
  (hsettings : Settings.load run.disk run.environment run.settings = .ok loaded)
  (hcriteria : run.disk.loadCriteria run.criteria = .ok criteria)
  (hcourse : run.disk.loadCourse run.results = .ok course)
include hsettings hcriteria hcourse

/-- With settings, criteria and a course a run saves the report on the course, if it has workers. -/
theorem outcome_cases :
    let settings := batchSettings loaded run.workers run.output run.format
    (settings.workers = 0 ∧ run.outcome.ending = .failed .noWorkers) ∨
      (settings.workers ≠ 0 ∧ (run.outcome.ending, run.outcome.disk) =
        (saveReports run.disk settings (criteria.evaluateCourse run.stamp course)).2) := by
  intro settings
  have houtcome : run.outcome =
      batch run.disk settings run.criteria run.results run.stamp run.schedule := by
    rw [outcome, Invocation.run, hsettings]
    rfl
  rw [houtcome, batch]
  by_cases hworkers : settings.workers = 0
  · have hinput : batchInput run.disk settings run.criteria run.results = .error .noWorkers := by
      rw [batchInput, if_pos hworkers]
      rfl
    rw [hinput]
    exact .inl ⟨hworkers, rfl⟩
  · have hinput :
        batchInput run.disk settings run.criteria run.results = .ok (criteria, course) := by
      rw [batchInput, if_neg hworkers, hcriteria, hcourse]
      rfl
    rw [hinput]
    refine .inr ⟨hworkers, ?_⟩
    dsimp only
    rw [Batch.fst_run]

/-- The JSON report of a run that gets as far is the one on the course. -/
theorem read_outcome
    (hjson : .json ∈ ReportFile.ofFormat
      (batchSettings loaded run.workers run.output run.format).format)
    (hending : run.outcome.ending.AfterJson) :
    run.outcome.disk.read
      (Path.join (batchSettings loaded run.workers run.output run.format).output
        ReportFile.json.fileName) = .ok (criteria.evaluateCourse run.stamp course).save := by
  rcases outcome_cases hsettings hcriteria hcourse with ⟨-, hnone⟩ | ⟨-, hsaved⟩
  · rw [hnone] at hending
    simp [Ending.AfterJson] at hending
  · obtain ⟨hsavedEnding, hdisk⟩ := Prod.ext_iff.1 hsaved
    dsimp only at hsavedEnding hdisk
    rw [hsavedEnding] at hending
    rw [hdisk]
    exact read_saveReports hjson hending

/-- A run with workers that can save its reports leaves the text of the report on the course. -/
theorem reports_of_saveReports
    (hworkers : (batchSettings loaded run.workers run.output run.format).workers ≠ 0)
    (hjson : .json ∈ ReportFile.ofFormat
      (batchSettings loaded run.workers run.output run.format).format)
    (hdone : (saveReports run.disk (batchSettings loaded run.workers run.output run.format)
      (criteria.evaluateCourse run.stamp course)).2.1 = .done) :
    run.Reports criteria course (criteria.evaluateCourse run.stamp course).save := by
  have hending : run.outcome.ending.AfterJson := by
    rcases outcome_cases hsettings hcriteria hcourse with ⟨hnone, -⟩ | ⟨-, hsaved⟩
    · exact absurd hnone hworkers
    · exact .inl ((congrArg Prod.fst hsaved).trans hdone)
  exact ⟨hcriteria, hcourse, loaded, hsettings, hjson, hending,
    read_outcome hsettings hcriteria hcourse hjson hending⟩

end

/-- Whatever a run leaves as its JSON report is the text of the report on the course. -/
theorem Reports.text_eq {text : String} (h : run.Reports criteria course text) :
    text = (criteria.evaluateCourse run.stamp course).save := by
  obtain ⟨loaded, hsettings, hjson, hending, hread⟩ := h.written
  have hsaved := read_outcome hsettings h.criteria h.course hjson hending
  exact Except.ok.inj (hread.symm.trans hsaved)

end BatchRun

end CourseAdmission.CommandLine
