import CourseAdmission.Proofs.Report.Reversed

/-!
Where a comparison of two reports accounts for each entry.

Each entry of the current report goes to one of four places, depending on the last entry of its
student in the baseline. The lists of changes keep the order of the current report, also where
students are listed more than once.
-/

namespace CourseAdmission

namespace Change

/-- The last of a student's entries. -/
def latest? (students : List StudentVerdict) (id : String) : Option StudentVerdict :=
  (students.filter (·.id == id)).getLast?

/-- Whether the last entry of a student says this on admission. -/
def latestSays (students : List StudentVerdict) (id : String) (admitted : Bool) : Bool :=
  (latest? students id).any (·.verdict.admitted == admitted)

theorem lastVerdict?_eq (students : List StudentVerdict) (id : String) :
    lastVerdict? students id = (latest? students id).map (·.verdict) := by
  rw [lastVerdict?, latest?, List.getLast?_eq_head?_reverse, ← List.filter_reverse,
    List.head?_filter]

variable (baseline : List StudentVerdict) (student : StudentVerdict)

theorem kind_eq_unchanged_iff_latestSays : kind baseline student = .unchanged ↔
    latestSays baseline student.id student.verdict.admitted = true := by
  rw [kind_eq_unchanged_iff, lastVerdict?_eq, latestSays]
  cases latest? baseline student.id <;> simp

/-- A denial is new if the last entry before was admitted, and is explained by itself. -/
theorem denied?_kind : (kind baseline student).denied? =
    if !student.verdict.admitted && latestSays baseline student.id true then
      some (ofDenial student.id student.verdict)
    else none := by
  rw [kind, lastVerdict?_eq, latestSays]
  cases latest? baseline student.id with
  | none => simp [Kind.denied?]
  | some before =>
    cases hbefore : before.verdict.admitted <;> cases student.verdict.admitted <;>
      simp [Kind.denied?, hbefore]

/-- An admission is new if the last entry before was denied, and is explained by that entry. -/
theorem admitted?_kind : (kind baseline student).admitted? =
    if student.verdict.admitted && latestSays baseline student.id false then
      (latest? baseline student.id).map fun before => ofDenial student.id before.verdict
    else none := by
  rw [kind, lastVerdict?_eq, latestSays]
  cases latest? baseline student.id with
  | none => simp [Kind.admitted?]
  | some before =>
    cases hbefore : before.verdict.admitted <;> cases student.verdict.admitted <;>
      simp [Kind.admitted?, hbefore]

end Change

/-- A denied student fails some rule. -/
theorem Criteria.failed_evaluate_ne_nil {criteria : Criteria} {results : List AssignmentResult}
    (hdenied : (criteria.evaluate results).admitted = false) :
    (criteria.evaluate results).failed ≠ [] := by
  rw [evaluate_eq, evaluateUncached, List.all_eq_false] at hdenied
  obtain ⟨result, hresult, hfails⟩ := hdenied
  rw [evaluate_eq, Verdict.failed]
  exact List.ne_nil_of_mem (List.mem_filter.2 ⟨hresult, by simpa using hfails⟩)

namespace Report

open Change

theorem newlyDenied_compare (current baseline : Report) :
    (current.compare baseline).newlyDenied =
      (current.students.filter fun s =>
          !s.verdict.admitted && latestSays baseline.students s.id true).map
        fun s => ofDenial s.id s.verdict := by
  rw [← List.filterMap_eq_map, List.filterMap_filter]
  simp only [compare, List.filterMap_map, Function.comp_def, denied?_kind]

theorem newlyAdmitted_compare (current baseline : Report) :
    (current.compare baseline).newlyAdmitted =
      (current.students.filter fun s =>
          s.verdict.admitted && latestSays baseline.students s.id false).filterMap
        fun s => (latest? baseline.students s.id).map fun before =>
          ofDenial s.id before.verdict := by
  rw [List.filterMap_filter]
  simp only [compare, List.filterMap_map, Function.comp_def, admitted?_kind]

theorem unchanged_compare (current baseline : Report) : (current.compare baseline).unchanged =
    current.students.countP fun s => latestSays baseline.students s.id s.verdict.admitted := by
  simp only [compare, List.count_eq_countP, List.countP_map]
  refine List.countP_congr fun s _ => ?_
  simp [kind_eq_unchanged_iff_latestSays]

/-- Whoever is denied in a report on a course is denied by some rule. -/
theorem failed_ne_nil_of_mem_evaluateCourse {criteria : Criteria} {stamp : Stamp}
    {course : CourseResults} {student : StudentVerdict}
    (hstudent : student ∈ (criteria.evaluateCourse stamp course).students)
    (hdenied : student.verdict.admitted = false) : student.verdict.failed ≠ [] := by
  obtain ⟨achieved, -, rfl⟩ := List.mem_map.1 hstudent
  exact Criteria.failed_evaluate_ne_nil hdenied

/-- Every change between two reports on courses names a rule that denies. -/
theorem deniedBy_ne_nil {criteria criteria' : Criteria} {stamp stamp' : Stamp}
    {course course' : CourseResults} {change : Change}
    (hchange :
      let changes := (criteria.evaluateCourse stamp course).compare
        (criteria'.evaluateCourse stamp' course')
      change ∈ changes.newlyDenied ∨ change ∈ changes.newlyAdmitted) : change.deniedBy ≠ [] := by
  rcases hchange with hdenied | hadmitted
  · obtain ⟨student, hstudent, _, -, -, hnow, rfl⟩ := mem_newlyDenied_compare_iff.1 hdenied
    exact mt List.map_eq_nil_iff.1 (failed_ne_nil_of_mem_evaluateCourse hstudent hnow)
  · obtain ⟨_, -, before, hlast, hbefore, -, rfl⟩ := mem_newlyAdmitted_compare_iff.1 hadmitted
    obtain ⟨student, hstudent, -, rfl⟩ := exists_of_lastVerdict?_eq_some hlast
    exact mt List.map_eq_nil_iff.1 (failed_ne_nil_of_mem_evaluateCourse hstudent hbefore)

/-- A comparison accounts for each entry of the current report once: as newly admitted, as newly
    denied, as unchanged or as new. The new ones are those of students whom the baseline does not
    have, and the removed ones the other way round. The newly denied are, in the order of the
    current report, its denied entries of students whose last entry before was admitted, each with
    the summaries of the rules it fails; the newly admitted are its admitted entries of students
    whose last entry before was denied, with the summaries of the rules that failed in that entry.
    Between two reports on courses no change is without such a rule. -/
theorem compare_accounts (current baseline : Report) :
    let changes := current.compare baseline
    changes.newlyAdmitted.length + changes.newlyDenied.length + changes.unchanged +
        changes.newStudents = current.students.length ∧
      changes.newStudents =
        current.students.countP (fun s => !baseline.students.any (·.id == s.id)) ∧
      changes.removedStudents =
        baseline.students.countP (fun s => !current.students.any (·.id == s.id)) ∧
      changes.unchanged =
        current.students.countP (fun s => latestSays baseline.students s.id s.verdict.admitted) ∧
      changes.newlyDenied =
        (current.students.filter fun s =>
            !s.verdict.admitted && latestSays baseline.students s.id true).map
          (fun s => ⟨s.id, s.verdict.failed.map (·.summary)⟩) ∧
      changes.newlyAdmitted =
        (current.students.filter fun s =>
            s.verdict.admitted && latestSays baseline.students s.id false).filterMap
          (fun s => (latest? baseline.students s.id).map fun before =>
            ⟨s.id, before.verdict.failed.map (·.summary)⟩) ∧
      (∀ (criteria criteria' : Criteria) (stamp stamp' : Stamp) (course course' : CourseResults),
        current = criteria.evaluateCourse stamp course →
        baseline = criteria'.evaluateCourse stamp' course' →
        ∀ change, change ∈ changes.newlyDenied ∨ change ∈ changes.newlyAdmitted →
          change.deniedBy ≠ []) := by
  intro changes
  refine ⟨(length_students_eq current baseline).symm, newStudents_compare, rfl,
    unchanged_compare current baseline, newlyDenied_compare current baseline,
    newlyAdmitted_compare current baseline, ?_⟩
  rintro criteria criteria' stamp stamp' course course' rfl rfl change hchange
  exact deniedBy_ne_nil hchange

/-- Both reports list students twice: `"a"` was admitted last, so both entries that deny are new
    denials; the last entry of `"b"` before denied. -/
theorem compare_accounts_onHomework :
    let before := onHomework [("a", false), ("b", true), ("a", true), ("b", false), ("c", true)]
    let after := onHomework [("a", false), ("b", true), ("d", true), ("a", false), ("a", true)]
    let changes := after.compare before
    changes.newlyDenied.map (·.id) = ["a", "a"] ∧ changes.newlyAdmitted.map (·.id) = ["b"] ∧
      changes.unchanged = 1 ∧ changes.newStudents = 1 ∧ changes.removedStudents = 1 ∧
      ∀ change ∈ changes.newlyAdmitted, change.deniedBy ≠ [] := by
  intro before after changes
  obtain ⟨-, hnew, hremoved, hunchanged, hdenied, hadmitted, hnamed⟩ :=
    compare_accounts after before
  refine ⟨?_, ?_, ?_, ?_, ?_, fun change hchange => ?_⟩
  · exact (congrArg _ hdenied).trans (by decide +kernel)
  · exact (congrArg _ hadmitted).trans (by decide +kernel)
  · exact hunchanged.trans (by decide +kernel)
  · exact hnew.trans (by decide +kernel)
  · exact hremoved.trans (by decide +kernel)
  · exact hnamed _ _ _ _ _ _ rfl rfl change (.inr hchange)

end Report

end CourseAdmission
