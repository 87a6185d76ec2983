import CourseAdmission.Report.Basic

/-!
Evaluating the students of a course on several workers.

A worker takes a waiting student, evaluates them, and puts the verdict into the student's place; an
observer hears of each verdict, and of the whole when all places are filled. A schedule is any list
of steps; steps that are not possible are skipped, and what a schedule leaves undone is done at its
end in order.
-/

namespace CourseAdmission.Batch

/-- What the observer hears. -/
inductive Notice where
  | evaluated (student : StudentVerdict)
  | complete (total admitted : Nat)
  deriving DecidableEq

inductive Step where
  /-- A worker without a student takes the waiting one at a place. -/
  | start (worker place : Nat)
  /-- A worker is done with its student. -/
  | finish (worker : Nat)
  deriving DecidableEq

/-- Who waits, who is being evaluated by which worker, and what has been found out. -/
structure State where
  waiting : List Nat
  running : List (Nat × Nat)
  slots : List (Option StudentVerdict)
  notices : List Notice
  deriving DecidableEq

variable (criteria : Criteria) (course : CourseResults)

def State.start (course : CourseResults) : State :=
  ⟨List.range course.students.length, [], course.students.map fun _ => none, []⟩

/-- Evaluates the student at a place, fills the place, and tells the observer. -/
def State.complete (state : State) (place : Nat) : State :=
  match course.students[place]? with
  | some student =>
    let verdict := criteria.evaluateStudent student
    { state with
      slots := state.slots.set place (some verdict)
      notices := state.notices ++ [.evaluated verdict] }
  | none => state

def State.step (workers : Nat) (state : State) : Step → State
  | .start worker place =>
    if worker < workers ∧ state.running.lookup worker = none ∧ place ∈ state.waiting then
      { state with
        waiting := state.waiting.erase place
        running := (worker, place) :: state.running }
    else state
  | .finish worker =>
    match state.running.lookup worker with
    | some place =>
      { state with running := state.running.erase (worker, place) }.complete criteria course place
    | none => state

/-- Completes the students in progress, then those who wait. -/
def State.drain (state : State) : State :=
  ((state.running.map (·.2)) ++ state.waiting).foldl (State.complete criteria course)
    { state with running := [], waiting := [] }

/-- The report on a course whose students are evaluated along a schedule, and what the observer
    hears in the meantime. -/
def run (stamp : Report.Stamp) (workers : Nat) (schedule : List Step) : Report × List Notice :=
  let scheduled := schedule.foldl (State.step criteria course workers) (.start course)
  let final := scheduled.drain criteria course
  let report := Report.ofVerdicts stamp course.id criteria (final.slots.filterMap id)
  (report, final.notices ++ [.complete report.summary.total report.summary.admitted])

end CourseAdmission.Batch
