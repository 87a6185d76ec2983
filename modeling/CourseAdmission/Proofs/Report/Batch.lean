import CourseAdmission.Report.Batch
import Mathlib.Data.List.Nodup
import Mathlib.Data.List.Range

/-!
Evaluating a course on several workers, whatever their number and the schedule.

A step moves one place of the course from those that wait to those in progress, or from there to
those that are done, so no place is lost or taken twice. A place that is done holds the verdict on
its student, and the observer has heard of it once.
-/

namespace CourseAdmission.Batch

variable {criteria : Criteria} {course : CourseResults} {state : State} {done : List Nat}

/-- The verdict on the student at a place. -/
def verdictAt? (criteria : Criteria) (course : CourseResults) (place : Nat) :
    Option StudentVerdict :=
  course.students[place]?.map criteria.evaluateStudent

theorem filterMap_getElem?_range {α : Type} (values : List α) :
    (List.range values.length).filterMap (values[·]?) = values := by
  induction values with
  | nil => rfl
  | cons value values ih =>
    rw [List.length_cons, List.range_succ_eq_map]
    simp [List.filterMap_map, ih]

/-- The verdicts at all places in order are those on the students one after the other. -/
theorem filterMap_verdictAt?_range (criteria : Criteria) (course : CourseResults) :
    (List.range course.students.length).filterMap (verdictAt? criteria course) =
      course.students.map criteria.evaluateStudent := by
  have hverdicts := filterMap_getElem?_range (course.students.map criteria.evaluateStudent)
  simp only [List.length_map, List.getElem?_map] at hverdicts
  exact hverdicts

namespace State

/-- These places are done: they alone are filled, each with its own verdict, and the observer has
    heard of them in this order. -/
structure Filled (criteria : Criteria) (course : CourseResults) (state : State)
    (done : List Nat) : Prop where
  slots : ∀ place, state.slots[place]? = course.students[place]?.map fun student =>
    if place ∈ done then some (criteria.evaluateStudent student) else none
  notices : state.notices = (done.filterMap (verdictAt? criteria course)).map .evaluated

/-- Each place of the course is done, in progress or waiting, and is so once. -/
structure Reached (criteria : Criteria) (course : CourseResults) (state : State)
    (done : List Nat) : Prop extends state.Filled criteria course done where
  places : (done ++ (state.running.map (·.2) ++ state.waiting)).Perm
    (List.range course.students.length)

theorem reached_start (criteria : Criteria) (course : CourseResults) :
    (start course).Reached criteria course [] where
  slots place := by simp only [start, List.getElem?_map, List.not_mem_nil, if_false]
  notices := rfl
  places := .rfl

theorem complete_eq {place : Nat} (hplace : place < course.students.length) :
    state.complete criteria course place = { state with
      slots := state.slots.set place (some (criteria.evaluateStudent course.students[place]))
      notices :=
        state.notices ++ [.evaluated (criteria.evaluateStudent course.students[place])] } := by
  rw [complete, List.getElem?_eq_getElem hplace]

theorem Filled.complete (h : state.Filled criteria course done) {place : Nat}
    (hplace : place < course.students.length) :
    (state.complete criteria course place).Filled criteria course (done ++ [place]) := by
  rw [complete_eq hplace]
  constructor
  · intro other
    rw [List.getElem?_set', h.slots other]
    by_cases hother : place = other
    · subst hother
      simp [List.getElem?_eq_getElem hplace]
    · simp [hother, Ne.symm hother]
  · rw [h.notices, List.filterMap_append, List.map_append]
    simp [verdictAt?, List.getElem?_eq_getElem hplace]

/-- Completing places one after the other fills them in this order. -/
theorem Filled.foldl_complete (h : state.Filled criteria course done) {places : List Nat}
    (hplaces : ∀ place ∈ places, place < course.students.length) :
    (places.foldl (State.complete criteria course) state).Filled criteria course
      (done ++ places) := by
  induction places generalizing state done with
  | nil => simpa using h
  | cons place places ih =>
    obtain ⟨hplace, hrest⟩ := List.forall_mem_cons.1 hplaces
    simpa using ih (h.complete hplace) hrest

theorem Reached.lt (h : state.Reached criteria course done) {place : Nat}
    (hplace : place ∈ state.running.map (·.2) ++ state.waiting) :
    place < course.students.length :=
  List.mem_range.1 (h.places.mem_iff.1 (List.mem_append_right done hplace))

/-- A step leaves each place where it is, or moves one on. -/
theorem Reached.step (h : state.Reached criteria course done) (workers : Nat) (step : Step) :
    ∃ done, (state.step criteria course workers step).Reached criteria course done := by
  cases step with
  | start worker place =>
    simp only [State.step]
    split
    case isFalse => exact ⟨done, h⟩
    case isTrue hfree =>
      have hmoved : (place :: (state.running.map (·.2) ++ state.waiting.erase place)).Perm
          (state.running.map (·.2) ++ state.waiting) :=
        List.perm_middle.symm.trans ((List.perm_cons_erase hfree.2.2).symm.append_left _)
      exact ⟨done, ⟨h.slots, h.notices⟩, (hmoved.append_left done).trans h.places⟩
  | finish worker =>
    simp only [State.step]
    split
    case h_2 => exact ⟨done, h⟩
    case h_1 place hlookup =>
      obtain ⟨before, after, hrunning, -⟩ := List.lookup_eq_some_iff.1 hlookup
      have hmem : (worker, place) ∈ state.running := by simp [hrunning]
      have hmoved : (place :: (state.running.erase (worker, place)).map (·.2)).Perm
          (state.running.map (·.2)) := ((List.perm_cons_erase hmem).map Prod.snd).symm
      have hplace : place < course.students.length :=
        h.lt (List.mem_append_left _ (List.mem_map.2 ⟨_, hmem, rfl⟩))
      have hfilled : State.Filled criteria course
          { state with running := state.running.erase (worker, place) } done :=
        ⟨h.slots, h.notices⟩
      refine ⟨done ++ [place], hfilled.complete hplace, ?_⟩
      rw [complete_eq hplace, List.append_assoc]
      exact ((hmoved.append_right state.waiting).append_left done).trans h.places

/-- After any schedule each place is done, in progress or waiting. -/
theorem Reached.foldl_step (h : state.Reached criteria course done) (workers : Nat)
    (schedule : List Step) :
    ∃ done, (schedule.foldl (State.step criteria course workers) state).Reached criteria course
      done := by
  induction schedule generalizing state done with
  | nil => exact ⟨done, h⟩
  | cons step schedule ih =>
    obtain ⟨next, hnext⟩ := h.step workers step
    exact ih hnext

/-- What a schedule leaves undone is done at its end, so that in the end all places are. -/
theorem Reached.drain (h : state.Reached criteria course done) :
    ∃ all : List Nat, all.Perm (List.range course.students.length) ∧
      (state.drain criteria course).Filled criteria course all := by
  have hfilled : State.Filled criteria course { state with running := [], waiting := [] } done :=
    ⟨h.slots, h.notices⟩
  exact ⟨_, h.places, hfilled.foldl_complete fun _ => h.lt⟩

/-- Once all places are done, the verdicts are those on the students one after the other. -/
theorem Filled.filterMap_slots (h : state.Filled criteria course done)
    (hall : done.Perm (List.range course.students.length)) :
    state.slots.filterMap id = course.students.map criteria.evaluateStudent := by
  have hslots : state.slots = course.students.map fun student =>
      some (criteria.evaluateStudent student) := by
    refine List.ext_getElem? fun place => ?_
    rw [h.slots place, List.getElem?_map]
    by_cases hplace : place < course.students.length
    · simp [hall.mem_iff, hplace]
    · simp [List.getElem?_eq_none (Nat.le_of_not_lt hplace)]
  rw [hslots, List.filterMap_map]
  exact congrFun List.filterMap_eq_map _

/-- One worker takes the students at these places one after the other. -/
def oneByOne (places : List Nat) : List Step :=
  places.flatMap fun place => [.start 0 place, .finish 0]

/-- One worker alone can fill the places that wait in any order. -/
theorem Filled.foldl_step_oneByOne (h : state.Filled criteria course done)
    (hrunning : state.running = [])
    (hwaiting : ∀ place ∈ state.waiting, place < course.students.length) {places : List Nat}
    (hplaces : places.Perm state.waiting) {workers : Nat} (hworkers : 0 < workers) :
    ∃ final : State, final.Filled criteria course (done ++ places) ∧ final.running = [] ∧
      final.waiting = [] ∧
      (oneByOne places).foldl (State.step criteria course workers) state = final := by
  induction places generalizing state done with
  | nil => exact ⟨state, by simpa using h, hrunning, hplaces.nil_eq.symm, rfl⟩
  | cons place places ih =>
    obtain ⟨hmem, hrest⟩ := List.cons_perm_iff_perm_erase.1 hplaces
    have hplace := hwaiting place hmem
    let taken : State := { state with waiting := state.waiting.erase place, running := [] }
    have hfree : taken.Filled criteria course done := ⟨h.slots, h.notices⟩
    have htaken := hfree.complete hplace
    have hsteps : State.step criteria course workers
        (State.step criteria course workers state (.start 0 place)) (.finish 0) =
          taken.complete criteria course place := by
      simp [State.step, hrunning, hworkers, hmem, taken]
    rw [complete_eq hplace] at htaken hsteps
    obtain ⟨final, hfilled, hfinal⟩ := ih htaken rfl
      (fun other hother => hwaiting other (List.mem_of_mem_erase hother)) hrest
    refine ⟨final, by simpa using hfilled, hfinal.1, hfinal.2.1, ?_⟩
    rw [← hfinal.2.2, ← hsteps]
    rfl

end State

/-- As soon as there is a worker, the observer can hear of the students in any order. -/
theorem exists_schedule_of_perm (criteria : Criteria) (course : CourseResults)
    (stamp : Report.Stamp) {workers : Nat} (hworkers : 0 < workers) {order : List Nat}
    (horder : order.Perm (List.range course.students.length)) :
    ∃ schedule total admitted, (run criteria course stamp workers schedule).2 =
      (order.filterMap (verdictAt? criteria course)).map .evaluated ++
        [.complete total admitted] := by
  obtain ⟨⟨waiting, running, slots, notices⟩, hfilled, rfl, rfl, hsteps⟩ :=
    (State.reached_start criteria course).foldl_step_oneByOne rfl
      (fun _ hplace => List.mem_range.1 hplace) horder hworkers
  refine ⟨State.oneByOne order, _, _, congrArg (· ++ [_]) ?_⟩
  rw [hsteps]
  exact hfilled.notices

/-- At the end of a run all places are done. -/
theorem exists_filled (criteria : Criteria) (course : CourseResults) (workers : Nat)
    (schedule : List Step) :
    ∃ all : List Nat, all.Perm (List.range course.students.length) ∧
      ((schedule.foldl (State.step criteria course workers) (.start course)).drain criteria
        course).Filled criteria course all := by
  obtain ⟨done, hreached⟩ :=
    (State.reached_start criteria course).foldl_step workers schedule
  exact hreached.drain

/-- The report of a run is the one that evaluates the students one after the other. -/
theorem fst_run (criteria : Criteria) (course : CourseResults) (stamp : Report.Stamp)
    (workers : Nat) (schedule : List Step) :
    (run criteria course stamp workers schedule).1 = criteria.evaluateCourse stamp course := by
  obtain ⟨all, hall, hfilled⟩ := exists_filled criteria course workers schedule
  exact congrArg (Report.ofVerdicts stamp course.id criteria) (hfilled.filterMap_slots hall)

/-- Whatever the number of workers and the schedule, the report on a course is the one that
    evaluates its students one after the other. The observer hears once of the verdict on each
    entry of the course, in some order, and then once of the whole. -/
theorem run_spec (criteria : Criteria) (course : CourseResults) (stamp : Report.Stamp)
    (workers : Nat) (schedule : List Step) :
    let report := (run criteria course stamp workers schedule).1
    let notices := (run criteria course stamp workers schedule).2
    report = criteria.evaluateCourse stamp course ∧
      report.students =
        course.students.map (fun student => ⟨student.id, criteria.evaluate student.results⟩) ∧
      ∃ heard : List StudentVerdict, heard.Perm report.students ∧
        notices = heard.map .evaluated ++
          [.complete report.summary.total report.summary.admitted] := by
  intro report notices
  obtain ⟨all, hall, hfilled⟩ := exists_filled criteria course workers schedule
  have hreport : report = criteria.evaluateCourse stamp course :=
    fst_run criteria course stamp workers schedule
  have hstudents : report.students = course.students.map criteria.evaluateStudent := by
    rw [hreport]
    rfl
  refine ⟨hreport, hstudents, all.filterMap (verdictAt? criteria course), ?_, ?_⟩
  · rw [hstudents, ← filterMap_verdictAt?_range]
    exact hall.filterMap _
  · exact congrArg (· ++ [_]) hfilled.notices

end CourseAdmission.Batch
