import CourseAdmission.Proofs.Criteria.Demand
import CourseAdmission.Report.Change
import Mathlib.Data.List.Nodup

/-!
What a comparison of two reports finds.

Each entry of the current report is compared with the last entry of the same student in the
baseline. So where a student is listed more than once with different verdicts, even a report that is
compared with itself has changes.
-/

namespace CourseAdmission

/-! Criteria equal themselves, because no threshold is undefined. -/

instance : ReflBEq Demand where
  rfl {demand} := by
    have hrequired := Binary64.beq_self demand.isPercent.isFinite
    exact Bool.and_eq_true_iff.2 ⟨hrequired, beq_self_eq_true demand.rounding⟩

instance : ReflBEq Rule where
  rfl {rule} := by
    cases rule with
    | overall type average =>
      exact Bool.and_eq_true_iff.2 ⟨beq_self_eq_true type, beq_self_eq_true average⟩
    | passedShare type average share =>
      have hfirst := Bool.and_eq_true_iff.2 ⟨beq_self_eq_true type, beq_self_eq_true average⟩
      exact Bool.and_eq_true_iff.2 ⟨hfirst, beq_self_eq_true share⟩

instance : ReflBEq Criteria where
  rfl {criteria} := beq_self_eq_true criteria.rules

namespace Change

variable {students baseline : List StudentVerdict} {student : StudentVerdict} {id : String}
  {verdict : Verdict} {change : Change}

/-- The last entry of a student is one of the student's entries. -/
theorem exists_of_lastVerdict?_eq_some (h : lastVerdict? students id = some verdict) :
    ∃ student ∈ students, student.id = id ∧ student.verdict = verdict := by
  obtain ⟨student, hfind, hverdict⟩ := Option.map_eq_some_iff.1 h
  exact ⟨student, List.mem_reverse.1 (List.mem_of_find?_eq_some hfind),
    by simpa using List.find?_some hfind, hverdict⟩

theorem lastVerdict?_eq_none_iff :
    lastVerdict? students id = none ↔ ∀ student ∈ students, student.id ≠ id := by
  simp [lastVerdict?]

/-- An entry of a student has a last one. -/
theorem exists_lastVerdict? (hstudent : student ∈ students) :
    ∃ verdict, lastVerdict? students student.id = some verdict := by
  rw [← Option.ne_none_iff_exists', Ne, lastVerdict?_eq_none_iff]
  exact fun hnone => hnone student hstudent rfl

/-- A student who is listed once has the verdict of this entry as the last one. -/
theorem lastVerdict?_of_mem (hnodup : (students.map (·.id)).Nodup) (hstudent : student ∈ students) :
    lastVerdict? students student.id = some student.verdict := by
  obtain ⟨verdict, hlast⟩ := exists_lastVerdict? hstudent
  obtain ⟨other, hother, hid, rfl⟩ := exists_of_lastVerdict?_eq_some hlast
  rwa [List.inj_on_of_nodup_map hnodup hother hstudent hid] at hlast

/-- All that an entry can be: one of a student whom the baseline does not have, or one that says
    more, less or the same on admission as the last entry of the student in the baseline. -/
theorem kind_cases (baseline : List StudentVerdict) (student : StudentVerdict) :
    (lastVerdict? baseline student.id = none ∧ kind baseline student = .added) ∨
      ∃ before, lastVerdict? baseline student.id = some before ∧
        ((before.admitted = false ∧ student.verdict.admitted = true ∧
            kind baseline student = .admitted (ofDenial student.id before)) ∨
          (before.admitted = true ∧ student.verdict.admitted = false ∧
            kind baseline student = .denied (ofDenial student.id student.verdict)) ∨
          (before.admitted = student.verdict.admitted ∧ kind baseline student = .unchanged)) := by
  rw [kind]
  cases lastVerdict? baseline student.id with
  | none => exact .inl ⟨rfl, rfl⟩
  | some before =>
    obtain ⟨admitted, results⟩ := before
    refine .inr ⟨⟨admitted, results⟩, rfl, ?_⟩
    cases admitted <;> cases student.verdict.admitted <;> simp

theorem kind_eq_added_iff :
    kind baseline student = .added ↔ ∀ other ∈ baseline, other.id ≠ student.id := by
  rw [← lastVerdict?_eq_none_iff]
  rcases kind_cases baseline student with ⟨hlast, hkind⟩ |
    ⟨before, hlast, ⟨hbefore, hnow, hkind⟩ | ⟨hbefore, hnow, hkind⟩ | ⟨hsame, hkind⟩⟩ <;>
    simp [*]

theorem kind_eq_unchanged_iff : kind baseline student = .unchanged ↔
    ∃ before, lastVerdict? baseline student.id = some before ∧
      before.admitted = student.verdict.admitted := by
  rcases kind_cases baseline student with ⟨hlast, hkind⟩ |
    ⟨before, hlast, ⟨hbefore, hnow, hkind⟩ | ⟨hbefore, hnow, hkind⟩ | ⟨hsame, hkind⟩⟩ <;>
    simp [*]

theorem Kind.eq_unchanged_iff {kind : Kind} (hadded : kind ≠ .added) :
    kind = .unchanged ↔ kind.admitted? = none ∧ kind.denied? = none := by
  cases kind <;> simp_all [admitted?, denied?]

theorem denied?_kind_eq_some_iff : (kind baseline student).denied? = some change ↔
    ∃ before, lastVerdict? baseline student.id = some before ∧ before.admitted = true ∧
      student.verdict.admitted = false ∧ ofDenial student.id student.verdict = change := by
  rcases kind_cases baseline student with ⟨hlast, hkind⟩ |
    ⟨before, hlast, ⟨hbefore, hnow, hkind⟩ | ⟨hbefore, hnow, hkind⟩ | ⟨hsame, hkind⟩⟩ <;>
    simp +contextual [Kind.denied?, *]

theorem admitted?_kind_eq_some_iff : (kind baseline student).admitted? = some change ↔
    ∃ before, lastVerdict? baseline student.id = some before ∧ before.admitted = false ∧
      student.verdict.admitted = true ∧ ofDenial student.id before = change := by
  rcases kind_cases baseline student with ⟨hlast, hkind⟩ |
    ⟨before, hlast, ⟨hbefore, hnow, hkind⟩ | ⟨hbefore, hnow, hkind⟩ | ⟨hsame, hkind⟩⟩ <;>
    simp +contextual [Kind.admitted?, *]

/-- Each kind is counted in one place. -/
theorem Kind.length_eq (kinds : List Kind) :
    kinds.length = (kinds.filterMap (·.admitted?)).length + (kinds.filterMap (·.denied?)).length +
      kinds.count .unchanged + kinds.count .added := by
  induction kinds with
  | nil => rfl
  | cons kind kinds ih =>
    cases kind <;> simp [admitted?, denied?, ih] <;> omega

end Change

namespace Report

variable {current baseline report : Report} {change : Change}

/-- The newly denied are denied by the current report and admitted by the last entry before. -/
theorem mem_newlyDenied_compare_iff : change ∈ (current.compare baseline).newlyDenied ↔
    ∃ student ∈ current.students, ∃ before,
      Change.lastVerdict? baseline.students student.id = some before ∧ before.admitted = true ∧
        student.verdict.admitted = false ∧
        Change.ofDenial student.id student.verdict = change := by
  simp only [compare, List.mem_filterMap, List.mem_map, exists_exists_and_eq_and,
    Change.denied?_kind_eq_some_iff]

/-- The newly admitted are admitted by the current report and denied by the last entry before. -/
theorem mem_newlyAdmitted_compare_iff : change ∈ (current.compare baseline).newlyAdmitted ↔
    ∃ student ∈ current.students, ∃ before,
      Change.lastVerdict? baseline.students student.id = some before ∧ before.admitted = false ∧
        student.verdict.admitted = true ∧ Change.ofDenial student.id before = change := by
  simp only [compare, List.mem_filterMap, List.mem_map, exists_exists_and_eq_and,
    Change.admitted?_kind_eq_some_iff]

theorem hasNewDenials_compare_iff : (current.compare baseline).hasNewDenials = true ↔
    ∃ student ∈ current.students, ∃ before,
      Change.lastVerdict? baseline.students student.id = some before ∧ before.admitted = true ∧
        student.verdict.admitted = false := by
  have hsome (l : List Change) : (!l.isEmpty) = true ↔ ∃ change, change ∈ l := by
    cases l <;> simp
  unfold ChangeReport.hasNewDenials
  rw [hsome]
  constructor
  · rintro ⟨change, hchange⟩
    obtain ⟨student, hstudent, before, hlast, hbefore, hnow, -⟩ :=
      mem_newlyDenied_compare_iff.1 hchange
    exact ⟨student, hstudent, before, hlast, hbefore, hnow⟩
  · rintro ⟨student, hstudent, before, hlast, hbefore, hnow⟩
    exact ⟨_, mem_newlyDenied_compare_iff.2 ⟨student, hstudent, before, hlast, hbefore, hnow, rfl⟩⟩

/-- Every entry of the current report is counted once. -/
theorem length_students_eq (current baseline : Report) :
    current.students.length = (current.compare baseline).newlyAdmitted.length +
      (current.compare baseline).newlyDenied.length + (current.compare baseline).unchanged +
      (current.compare baseline).newStudents := by
  have hkinds := Change.Kind.length_eq (current.students.map (Change.kind baseline.students))
  rwa [List.length_map] at hkinds

/-- The new students are those whom the baseline does not have. -/
theorem newStudents_compare : (current.compare baseline).newStudents =
    current.students.countP fun s => !baseline.students.any (·.id == s.id) := by
  simp only [compare, List.count_eq_countP, List.countP_map]
  refine List.countP_congr fun s _ => ?_
  simp [Change.kind_eq_added_iff]

/-- All entries of a student say the same on admission. -/
def EntriesAgree (students : List StudentVerdict) : Prop :=
  ∀ s ∈ students, ∀ t ∈ students, s.id = t.id → s.verdict.admitted = t.verdict.admitted

/-- Entries agree with each other if and only if all agree with the last ones of their students. -/
theorem entriesAgree_iff {students : List StudentVerdict} :
    EntriesAgree students ↔ ∀ s ∈ students, Change.kind students s = .unchanged := by
  simp only [Change.kind_eq_unchanged_iff]
  constructor
  · intro hagree s hs
    obtain ⟨before, hlast⟩ := Change.exists_lastVerdict? hs
    obtain ⟨t, ht, hid, rfl⟩ := Change.exists_of_lastVerdict?_eq_some hlast
    exact ⟨_, hlast, hagree t ht s hs hid⟩
  · intro hlast s hs t ht hid
    obtain ⟨before, hbefore, hsame⟩ := hlast s hs
    obtain ⟨other, hother, hsame'⟩ := hlast t ht
    rw [hid, hother] at hbefore
    cases hbefore
    exact hsame.symm.trans hsame'

theorem kind_ne_added {students : List StudentVerdict} {s : StudentVerdict} (hs : s ∈ students) :
    Change.kind students s ≠ .added :=
  fun hadded => Change.kind_eq_added_iff.1 hadded s hs rfl

/-- A report that is compared with itself has the same criteria and the same students. -/
theorem compare_self (report : Report) :
    (report.compare report).criteriaChanged = false ∧ (report.compare report).newStudents = 0 ∧
      (report.compare report).removedStudents = 0 := by
  refine ⟨congrArg not (beq_self_eq_true report.criteria), ?_, ?_⟩
  · refine List.count_eq_zero.2 fun hadded => ?_
    obtain ⟨s, hs, hkind⟩ := List.mem_map.1 hadded
    exact kind_ne_added hs hkind
  · refine List.countP_eq_zero.2 fun s hs => ?_
    have hcurrent : report.students.any (·.id == s.id) = true :=
      List.any_eq_true.2 ⟨s, hs, beq_self_eq_true s.id⟩
    simp [hcurrent]

/-- It has changes of admission exactly if entries of a student disagree, and then it does not count
    all entries as unchanged. -/
theorem compare_self_unchanged_iff (report : Report) :
    ((report.compare report).newlyAdmitted = [] ∧ (report.compare report).newlyDenied = [] ↔
        EntriesAgree report.students) ∧
      ((report.compare report).unchanged = report.students.length ↔
        EntriesAgree report.students) := by
  simp only [entriesAgree_iff]
  constructor
  · simp only [compare, List.filterMap_eq_nil_iff, List.forall_mem_map, ← forall₂_and]
    exact forall₂_congr fun s hs => (Change.Kind.eq_unchanged_iff (kind_ne_added hs)).symm
  · rw [← List.length_map (f := Change.kind report.students)]
    refine List.count_eq_length.trans ?_
    simp only [List.forall_mem_map, eq_comm]

/-- The report on a course, compared with itself, has the same criteria and the same students. It
    has no change of admission, and counts all entries as unchanged, exactly if all entries of the
    course for a student lead to the same admission; so a student who is listed twice can be newly
    denied or admitted in it. -/
theorem compare_self_evaluateCourse (criteria : Criteria) (stamp : Stamp)
    (course : CourseResults) :
    let report := criteria.evaluateCourse stamp course
    let changes := report.compare report
    let agree := ∀ s ∈ course.students, ∀ t ∈ course.students, s.id = t.id →
      (criteria.evaluate s.results).admitted = (criteria.evaluate t.results).admitted
    (changes.criteriaChanged = false ∧ changes.newStudents = 0 ∧ changes.removedStudents = 0) ∧
      (changes.newlyAdmitted = [] ∧ changes.newlyDenied = [] ↔ agree) ∧
      (changes.unchanged = report.summary.total ↔ agree) := by
  intro report changes agree
  have hagree : EntriesAgree report.students ↔ agree := by
    have hstudents : report.students = course.students.map criteria.evaluateStudent := rfl
    rw [EntriesAgree, hstudents]
    simp only [List.forall_mem_map]
    rfl
  obtain ⟨hchanges, hunchanged⟩ := compare_self_unchanged_iff report
  exact ⟨compare_self report, hchanges.trans hagree, hunchanged.trans hagree⟩

/-- A student who is admitted, and listed again without results: compared with the last entry, the
    first one is newly admitted. -/
example :
    let criteria : Criteria := ⟨[.overall .homework ⟨50, .none, Binary64.isPercent_fifty, trivial⟩]⟩
    let students := [⟨"a", [⟨"x", .homework, 100, true⟩]⟩, ⟨"a", []⟩].map criteria.evaluateStudent
    (students.map fun s => (Change.kind students s).admitted?.isSome) = [true, false] := by
  decide +kernel

end Report

end CourseAdmission
