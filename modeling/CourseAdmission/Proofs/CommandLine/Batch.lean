import CourseAdmission.Proofs.CommandLine.Options
import CourseAdmission.Proofs.CommandLine.Settings
import CourseAdmission.Proofs.CommandLine.Writing
import CourseAdmission.Proofs.Files.Folders
import CourseAdmission.Proofs.Time.Instant

/-!
What a batch leaves on the disk.

If something that it needs is bad, it fails before anything is written. Otherwise it leaves the
report on the course in each of the files of its format, and nothing else, unless one of them cannot
be written.
-/

namespace CourseAdmission.CommandLine

variable {disk : Disk} {folder path : String} {place : List String} {report : Report}
  {settings : Settings} {files : List ReportFile}

theorem ReportFile.nodup_ofFormat (format : ReportFormat) : (ofFormat format).Nodup := by
  cases format <;> decide

/-! Saving -/

/-- The other disk has the report in these files of a folder, and beside them the same files. -/
structure LeavesReport (disk : Disk) (folder : String) (report : Report) (files : List ReportFile)
    (disk' : Disk) : Prop where
  read_eq : ∀ file ∈ files,
    disk'.read (Path.join folder file.fileName) = .ok (file.content report)
  file_iff_of_ne : ∀ names text,
    (∀ file ∈ files, disk'.locate (Path.join folder file.fileName) ≠ .ok names) →
      (disk'.root.at? names = some (.file text) ↔ disk.root.at? names = some (.file text))

/-- Paths lead where they led before reports were written. -/
theorem locate_writeReports (h : disk.locate path = .ok place) :
    (writeReports disk folder report files).2.2.locate path = .ok place := by
  induction files generalizing disk with
  | nil => exact h
  | cons file files ih =>
    rw [writeReports_cons]
    split
    case h_1 => exact h
    case h_2 disk' hwrite => exact ih (Disk.locate_write hwrite h)

theorem leavesReport_writeReports (hnodup : files.Nodup)
    (hdone : (writeReports disk folder report files).2.1 = .done) :
    LeavesReport disk folder report files (writeReports disk folder report files).2.2 := by
  induction files generalizing disk with
  | nil => exact ⟨by simp, fun names text _ => Iff.rfl⟩
  | cons file files ih =>
    obtain ⟨hfile, hnodup⟩ := List.nodup_cons.1 hnodup
    rw [writeReports_cons] at hdone ⊢
    split at hdone
    case h_1 => cases hdone
    case h_2 disk' hwrite =>
      obtain ⟨hread, hother⟩ := ih hnodup hdone
      constructor
      case read_eq =>
        intro written hwritten
        rcases List.mem_cons.1 hwritten with rfl | hwritten
        · exact read_writeReports hfile (Disk.read_write_self hwrite)
        · exact hread written hwritten
      case file_iff_of_ne =>
        intro names text hnames
        refine (hother names text fun written hwritten =>
          hnames written (List.mem_cons_of_mem file hwritten)).trans ?_
        obtain ⟨parent, name, hplace, hparent, hnone, hdisk⟩ := Disk.exists_parent_of_write hwrite
        have helse : names ≠ parent ++ [name] := by
          rintro rfl
          exact hnames file (List.mem_cons_self ..)
            (locate_writeReports (Disk.locate_write hwrite hplace))
        rw [hdisk]
        exact (FileTree.at?_put_of_ne hparent hnone helse).2 text

theorem leavesReport_saveReports (hdone : (saveReports disk settings report).2.1 = .done) :
    LeavesReport disk settings.output report (ReportFile.ofFormat settings.format)
      (saveReports disk settings report).2.2 := by
  unfold saveReports at hdone ⊢
  split at hdone
  case h_1 => cases hdone
  case h_2 disk' hfolders =>
    obtain ⟨hread, hother⟩ :=
      leavesReport_writeReports (ReportFile.nodup_ofFormat settings.format) hdone
    exact ⟨hread, fun names text hnames => (hother names text hnames).trans
      ((Disk.sameFiles_of_makeFolders hfolders).file_iff names text)⟩

/-- The report cannot be saved: its folder cannot be made, or the path of one of its files leads to
    a folder or nowhere. -/
inductive NotSaved (disk : Disk) (folder : String) (files : List ReportFile) (disk' : Disk) : Prop
  | folder {cause : StorageError} (hfolder : disk.makeFolders folder = .error cause)
  | file {file : ReportFile} (hfile : file ∈ files)
      (hplace : ∀ place, disk'.locate (Path.join folder file.fileName) = .ok place →
        disk'.root.FolderAt place)

theorem exists_file_of_writeReports (disk : Disk)
    (hfailed : (writeReports disk folder report files).2.1 ≠ .done) :
    ∃ file ∈ files, ∀ place,
      (writeReports disk folder report files).2.2.locate (Path.join folder file.fileName) =
        .ok place → (writeReports disk folder report files).2.2.root.FolderAt place := by
  induction files generalizing disk with
  | nil => exact absurd rfl hfailed
  | cons file files ih =>
    rw [writeReports_cons] at hfailed ⊢
    split at hfailed
    case h_1 hwrite =>
      exact ⟨file, List.mem_cons_self .., fun place => Disk.folderAt_of_write hwrite⟩
    case h_2 disk' _ =>
      obtain ⟨blocked, hblocked, hplace⟩ := ih disk' hfailed
      exact ⟨blocked, List.mem_cons_of_mem file hblocked, hplace⟩

theorem notSaved_saveReports (hfailed : (saveReports disk settings report).2.1 ≠ .done) :
    NotSaved disk settings.output (ReportFile.ofFormat settings.format)
      (saveReports disk settings report).2.2 := by
  unfold saveReports at hfailed ⊢
  split at hfailed
  case h_1 hfolder => exact .folder hfolder
  case h_2 disk' _ =>
    obtain ⟨file, hfile, hplace⟩ := exists_file_of_writeReports disk' hfailed
    exact .file hfile hplace

theorem Outcome.exitCode_eq_zero_iff {outcome : Outcome} :
    outcome.exitCode = 0 ↔ outcome.ending = .done := by
  unfold exitCode
  cases outcome.ending <;> simp

namespace BatchRun

open Document

variable {run : BatchRun} {output output' : String} {workers workers' : Nat}
  {format format' : ReportFormat} {loaded : Settings}

/-- The folder, the number of workers and the format of a run, each of which may be given by an
    argument or by a key of the one file of settings, and the first two by the environment. -/
def Chosen (run : BatchRun) (output : String) (workers : Nat) (format : ReportFormat) : Prop :=
  ∃ source members, Settings.Source run.disk run.environment run.settings source ∧
    Settings.Holds run.disk members source ∧
    Settings.Layered run.output (run.environment.lookup "ADMISSION_OUTPUT_DIR") Decoder.text
      members "output_dir" "./admission-results" output ∧
    Settings.Layered run.workers (Settings.workersIn run.environment) Decoder.count
      members "parallelism" 4 workers ∧
    Settings.Layered run.format none ReportFormat.decoder members "default_format" .json format

theorem Chosen.unique (h : run.Chosen output workers format)
    (h' : run.Chosen output' workers' format') :
    output = output' ∧ workers = workers' ∧ format = format' := by
  obtain ⟨source, members, hsource, hmembers, houtput, hworkers, hformat⟩ := h
  obtain ⟨source', members', hsource', hmembers', houtput', hworkers', hformat'⟩ := h'
  obtain rfl := hsource.unique hsource'
  obtain rfl := hmembers.unique hmembers'
  exact ⟨houtput.unique houtput', hworkers.unique hworkers', hformat.unique hformat'⟩

theorem chosen_of_load
    (h : Settings.load run.disk run.environment run.settings = .ok loaded) :
    let settings := batchSettings loaded run.workers run.output run.format
    run.Chosen settings.output settings.workers settings.format := by
  obtain ⟨source, file, hlocate, hfile, hoverride⟩ := Settings.load_eq_ok_iff.1 h
  obtain ⟨members, hmembers, hkeys⟩ := Settings.fromKeys_of_ofFile hfile
  rw [Settings.override_eq_ok hoverride]
  exact ⟨source, members, Settings.locate_eq_ok_iff.1 hlocate, hmembers,
    Settings.layered_getD hkeys.output, Settings.layered_getD hkeys.workers,
    Settings.layered_getD hkeys.format⟩

/-- Something that the run needs is bad: the settings, the number of workers, the criteria or the
    course. -/
inductive Refused (run : BatchRun) : Prop
  | settings (hbad : Settings.Bad run.disk run.environment run.settings)
  | noWorkers {output : String} {format : ReportFormat} (hchosen : run.Chosen output 0 format)
  | criteria {cause : LoadError} (hcriteria : run.disk.loadCriteria run.criteria = .error cause)
  | course {cause : LoadError} (hcourse : run.disk.loadCourse run.results = .error cause)

/-- A run that is refused fails before anything is written. -/
theorem outcome_of_refused (h : run.Refused) :
    ∃ error, run.outcome = .failed run.disk error := by
  rw [outcome, Invocation.run]
  cases hload : Settings.load run.disk run.environment run.settings with
  | error cause => exact ⟨.settings cause, rfl⟩
  | ok loaded =>
    have hinput : ∃ error, batchInput run.disk
        (batchSettings loaded run.workers run.output run.format) run.criteria run.results =
          .error error := by
      unfold batchInput
      split
      case isTrue => exact ⟨.noWorkers, rfl⟩
      case isFalse hworkers =>
        cases h with
        | settings hbad => exact absurd hload hbad.load_ne_ok
        | noWorkers hchosen => exact absurd ((chosen_of_load hload).unique hchosen).2.1 hworkers
        | criteria hcriteria =>
          rw [hcriteria]
          exact ⟨_, rfl⟩
        | course hcourse =>
          rw [hcourse]
          cases run.disk.loadCriteria run.criteria <;> exact ⟨_, rfl⟩
    obtain ⟨error, herror⟩ := hinput
    refine ⟨error, ?_⟩
    dsimp only [Command.run]
    unfold batch
    rw [herror]

/-- What a run that is not refused evaluates, and how it saves the report. -/
theorem outcome_of_not_refused (h : ¬run.Refused) :
    ∃ settings criteria course, run.Chosen settings.output settings.workers settings.format ∧
      settings.workers ≠ 0 ∧ run.disk.loadCriteria run.criteria = .ok criteria ∧
      run.disk.loadCourse run.results = .ok course ∧
      let saved := saveReports run.disk settings (criteria.evaluateCourse run.stamp course)
      run.outcome.ending = saved.2.1 ∧ run.outcome.disk = saved.2.2 := by
  cases hload : Settings.load run.disk run.environment run.settings with
  | error cause => exact absurd (.settings (Settings.bad_of_load hload)) h
  | ok loaded =>
    cases hcriteria : run.disk.loadCriteria run.criteria with
    | error cause => exact absurd (.criteria hcriteria) h
    | ok criteria =>
      cases hcourse : run.disk.loadCourse run.results with
      | error cause => exact absurd (.course hcourse) h
      | ok course =>
        have hchosen := chosen_of_load hload
        rcases outcome_cases hload hcriteria hcourse with ⟨hnone, -⟩ | ⟨hsome, hsaved⟩
        · dsimp only at hchosen
          rw [hnone] at hchosen
          exact absurd (.noWorkers hchosen) h
        · exact ⟨_, criteria, course, hchosen, hsome, rfl, rfl, Prod.ext_iff.1 hsaved⟩

/-- A run that is refused fails and leaves everything as it was. A run that succeeds has evaluated
    the course in the file that is given for it by the criteria in the file that is given for them,
    and leaves the report on it in the files of the chosen format and in the chosen folder; no other
    file is made or changed. A run that is not refused succeeds unless the report cannot be saved.
    What a run is given is what the arguments write for its options. -/
theorem exitCode_outcome (run : BatchRun) :
    (run.Refused → run.outcome.exitCode = 1 ∧ run.outcome.disk = run.disk) ∧
    (run.outcome.exitCode = 0 → ∃ output workers format, ∃ (criteria : Criteria)
      (course : CourseResults), run.Chosen output workers format ∧ workers ≠ 0 ∧
      run.disk.loadCriteria run.criteria = .ok criteria ∧
      run.disk.loadCourse run.results = .ok course ∧
      LeavesReport run.disk output (criteria.evaluateCourse run.stamp course)
        (ReportFile.ofFormat format) run.outcome.disk) ∧
    (¬run.Refused → run.outcome.exitCode ≠ 0 → ∃ output workers format,
      run.Chosen output workers format ∧
      NotSaved run.disk output (ReportFile.ofFormat format) run.outcome.disk) ∧
    ∀ arguments, Invocation.ofArguments arguments =
        .ok ⟨run.settings,
          .batch run.criteria run.results run.workers run.output run.format⟩ →
      WritesBatch arguments run.settings run.criteria run.results run.workers run.output
        run.format := by
  refine ⟨fun hrefused => ?_, fun hdone => ?_, fun haccepted hfailed => ?_,
    fun arguments => writesBatch_of_ofArguments⟩
  · obtain ⟨error, herror⟩ := outcome_of_refused hrefused
    rw [herror]
    exact ⟨rfl, rfl⟩
  · have haccepted : ¬run.Refused := fun hrefused => by
      obtain ⟨error, herror⟩ := outcome_of_refused hrefused
      rw [herror] at hdone
      cases hdone
    obtain ⟨settings, criteria, course, hchosen, hworkers, hcriteria, hcourse, hending, hdisk⟩ :=
      outcome_of_not_refused haccepted
    rw [Outcome.exitCode_eq_zero_iff, hending] at hdone
    refine ⟨_, _, _, criteria, course, hchosen, hworkers, hcriteria, hcourse, ?_⟩
    rw [hdisk]
    exact leavesReport_saveReports hdone
  · obtain ⟨settings, criteria, course, hchosen, -, -, -, hending, hdisk⟩ :=
      outcome_of_not_refused haccepted
    rw [Ne, Outcome.exitCode_eq_zero_iff, hending] at hfailed
    refine ⟨_, _, _, hchosen, ?_⟩
    rw [hdisk]
    exact notSaved_saveReports hfailed

/-! A run that the environment and the arguments tell what to do -/

def sampleRun : BatchRun :=
  ⟨⟨.folder [("criteria.json", .file "[]"), ("course.json", .file "[\"\",[[\"a\"]]]")], []⟩,
    [("ADMISSION_OUTPUT_DIR", "b"), ("ADMISSION_PARALLELISM", " 2 ")], ⟨.nil, .epoch, 0⟩, [], none,
    "criteria.json", "course.json", none, none, some .all⟩

def sampleArguments : List String :=
  ["batch", "--criteria=criteria.json", "--results", "course.json", "--format", "all"]

theorem exitCode_sampleRun : sampleRun.outcome.exitCode = 0 ∧
    WritesBatch sampleArguments none "criteria.json" "course.json" none none (some .all) ∧
    ∃ criteria course, sampleRun.disk.loadCriteria "criteria.json" = .ok criteria ∧
      sampleRun.disk.loadCourse "course.json" = .ok course ∧
      LeavesReport sampleRun.disk "b" (criteria.evaluateCourse sampleRun.stamp course)
        [.json, .html, .markdown] sampleRun.outcome.disk := by
  have hdone : sampleRun.outcome.exitCode = 0 := by decide +kernel
  have hload : Settings.load sampleRun.disk sampleRun.environment sampleRun.settings =
      .ok ⟨"b", 2, .json, "admission=info"⟩ := by decide +kernel
  have hchosen : sampleRun.Chosen "b" 2 .all := chosen_of_load hload
  obtain ⟨-, hsucceeds, -, hwrites⟩ := exitCode_outcome sampleRun
  obtain ⟨output, workers, format, criteria, course, hsame, -, hcriteria, hcourse, hleaves⟩ :=
    hsucceeds hdone
  obtain ⟨rfl, rfl, rfl⟩ := hsame.unique hchosen
  exact ⟨hdone, hwrites sampleArguments (by decide +kernel), criteria, course, hcriteria, hcourse,
    hleaves⟩

end BatchRun

end CourseAdmission.CommandLine
