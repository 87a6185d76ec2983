import CourseAdmission.Proofs.Verdict.Evaluate
import CourseAdmission.Report.Basic
import Mathlib.Algebra.Ring.Nat

/-!
What the counts of a report say about the results of a course.

The counts are taken from the verdicts, which join results to rules by their places. Every verdict
has one result at the place of each rule, so each rule counts each student once.
-/

namespace CourseAdmission

/-- Whether a student with these results passes the rule. -/
def Rule.passesOn (rule : Rule) (results : List AssignmentResult) : Bool :=
  (rule.outcome (TypeAggregate.ofResults results rule.type)).passed

/-- A rule looks at a type that has no results, or some that are no percentages. -/
def Rule.doubtfulOn (rule : Rule) (results : List AssignmentResult) : Bool :=
  (results.all fun r => r.type != rule.type) ||
    results.any fun r => r.type == rule.type && !decide r.percent.IsPercent

/-- Of the entries of a list with their places, one stands at a given place. -/
theorem countP_zipIdx {α : Type} {values : List α} {value : α} (first : Nat)
    {place : Nat} (hplace : values[place]? = some value) (p : α → Bool) :
    (values.zipIdx first).countP (fun entry => entry.2 == first + place && p entry.1) =
      if p value then 1 else 0 := by
  induction values generalizing first place with
  | nil => cases hplace
  | cons head values ih =>
    rw [List.zipIdx_cons, List.countP_cons]
    cases place with
    | zero =>
      obtain rfl : head = value := by simpa using hplace
      have hnone : (values.zipIdx (first + 1)).countP
          (fun entry => entry.2 == first + 0 && p entry.1) = 0 := by
        refine List.countP_eq_zero.2 fun entry hentry => ?_
        have hlow := List.le_snd_of_mem_zipIdx hentry
        have hne : entry.2 ≠ first := by omega
        simp [hne]
      rw [hnone]
      simp
    | succ place =>
      have hlater : first + (place + 1) = first + 1 + place := by omega
      have hne : first ≠ first + 1 + place := by omega
      rw [hlater, ih (first + 1) (by simpa using hplace)]
      simp [hne]

theorem length_eq_countP_add_countP_not {α : Type} (l : List α) (p : α → Bool) :
    l.length = l.countP p + l.countP fun x => !p x := by
  simpa only [decide_not, Bool.decide_eq_true] using List.length_eq_countP_add_countP p

namespace Criteria

variable {criteria : Criteria} {results : List AssignmentResult}

/-- A verdict has one result at the place of a rule, with the outcome of the rule. -/
theorem countP_results_evaluate {place : Nat} {rule : Rule}
    (hplace : criteria.rules[place]? = some rule) (passed : Bool) :
    (criteria.evaluate results).results.countP
        (fun r => r.index == place && r.passed == passed) =
      if rule.passesOn results == passed then 1 else 0 := by
  have hcount := countP_zipIdx 0 hplace fun rule => rule.passesOn results == passed
  rw [Nat.zero_add] at hcount
  rw [evaluate_eq, evaluateUncached, List.countP_map]
  exact hcount

/-- For a rule the students are counted who pass it, and those who fail it. -/
theorem countOutcome_evaluate (students : List StudentResults) {place : Nat} {rule : Rule}
    (hplace : criteria.rules[place]? = some rule) (passed : Bool) :
    Summary.countOutcome (students.map criteria.evaluateStudent) place passed =
      students.countP fun s => rule.passesOn s.results == passed := by
  rw [Summary.countOutcome]
  induction students with
  | nil => rfl
  | cons student students ih =>
    rw [List.map_cons, List.flatMap_cons, List.countP_append, ih, List.countP_cons, Nat.add_comm]
    exact congrArg _ (countP_results_evaluate hplace passed)

theorem admitted_evaluate (criteria : Criteria) (results : List AssignmentResult) :
    (criteria.evaluate results).admitted = criteria.rules.all (·.passesOn results) := by
  rw [Bool.eq_iff_iff, admitted_evaluate_iff, List.all_eq_true]
  rfl

theorem hasWarnings_resultOn (results : List AssignmentResult) (rule : Rule) (place : Nat) :
    (rule.resultOn results place).hasWarnings = rule.doubtfulOn results := by
  have hwarnings : (rule.resultOn results place).warnings = warningsOn results rule.type :=
    warnings_ofResults results rule.type
  rw [RuleResult.hasWarnings, hwarnings, Rule.doubtfulOn, warningsOn]
  cases results.all fun r => r.type != rule.type with
  | true => rfl
  | false =>
    rw [Bool.eq_iff_iff]
    simp

theorem hasWarnings_evaluate (criteria : Criteria) (results : List AssignmentResult) :
    (criteria.evaluate results).hasWarnings = criteria.rules.any (·.doubtfulOn results) := by
  rw [Verdict.hasWarnings, Bool.eq_iff_iff, ← not_iff_not, Bool.not_eq_true, Bool.not_eq_true,
    List.any_eq_false, List.any_eq_false]
  exact forall_mem_results_evaluate fun rule place => by rw [hasWarnings_resultOn]

/-- The counts over a course, each taken from the results of the students. -/
def countsOn (criteria : Criteria) (students : List StudentResults) : Summary where
  total := students.length
  admitted := students.countP fun s => criteria.rules.all (·.passesOn s.results)
  denied := students.countP fun s => !criteria.rules.all (·.passesOn s.results)
  withWarnings := students.countP fun s => criteria.rules.any (·.doubtfulOn s.results)
  rules := criteria.rules.zipIdx.map fun (rule, place) =>
    { index := place
      kind := rule.kind
      type := rule.type
      passed := students.countP fun s => rule.passesOn s.results
      failed := students.countP fun s => !rule.passesOn s.results }

theorem summary_eq_countsOn (criteria : Criteria) (stamp : Report.Stamp) (course : CourseResults) :
    (criteria.evaluateCourse stamp course).summary = criteria.countsOn course.students := by
  have hadmitted : (course.students.map criteria.evaluateStudent).countP (·.verdict.admitted) =
      course.students.countP fun s => criteria.rules.all (·.passesOn s.results) := by
    rw [List.countP_map]
    exact List.countP_congr fun s _ => Bool.eq_iff_iff.1 (admitted_evaluate criteria s.results)
  have hwarned : (course.students.map criteria.evaluateStudent).countP (·.verdict.hasWarnings) =
      course.students.countP fun s => criteria.rules.any (·.doubtfulOn s.results) := by
    rw [List.countP_map]
    exact List.countP_congr fun s _ => Bool.eq_iff_iff.1 (hasWarnings_evaluate criteria s.results)
  have hdenied := length_eq_countP_add_countP_not course.students
    fun s => criteria.rules.all (·.passesOn s.results)
  have htallies : criteria.rules.zipIdx.map (fun (rule, place) =>
      Summary.tally (course.students.map criteria.evaluateStudent) place rule) =
        (criteria.countsOn course.students).rules := by
    refine List.map_congr_left fun (rule, place) hentry => ?_
    have hplace := List.mem_zipIdx_iff_getElem?.1 hentry
    simp [Summary.tally, countOutcome_evaluate _ hplace]
  rw [evaluateCourse, Report.ofVerdicts, Summary.ofVerdicts, hadmitted, hwarned, htallies,
    List.length_map]
  simp only [countsOn, Summary.mk.injEq, true_and, and_true]
  omega

theorem countP_any_le {α β : Type} (l : List α) (values : List β) (p : β → α → Bool) :
    l.countP (fun x => values.any fun v => p v x) ≤ (values.map fun v => l.countP (p v)).sum := by
  have hor (q r : α → Bool) : l.countP (fun x => q x || r x) ≤ l.countP q + l.countP r := by
    induction l with
    | nil => simp
    | cons x l ih =>
      simp only [List.countP_cons]
      cases q x <;> cases r x <;> simp <;> omega
  induction values with
  | nil => simp
  | cons v values ih =>
    rw [List.map_cons, List.sum_cons]
    exact Nat.le_trans (hor (p v) _) (Nat.add_le_add_left ih _)

/-- The summary of a report on a course counts each student once for each rule, as the student's
    results pass it or fail it, and once as admitted or denied. A student is admitted if all rules
    pass, so no rule is passed by fewer students than are admitted or failed by more than are
    denied, and each denied student is counted for some rule as failed. A student has a warning if a
    rule looks at a type that has no results or some that are no percentages. Without rules
    everybody is admitted and nobody has a warning. -/
theorem summary_evaluateCourse (criteria : Criteria) (stamp : Report.Stamp)
    (course : CourseResults) :
    let summary := (criteria.evaluateCourse stamp course).summary
    let n := course.students.length
    summary = criteria.countsOn course.students ∧
      summary.total = n ∧ summary.admitted + summary.denied = n ∧
      (∀ tally ∈ summary.rules, tally.passed + tally.failed = n ∧
        summary.admitted ≤ tally.passed ∧ tally.failed ≤ summary.denied) ∧
      summary.denied ≤ (summary.rules.map (·.failed)).sum ∧
      (criteria.rules = [] → summary.admitted = n ∧ summary.withWarnings = 0) := by
  intro summary n
  have hsummary : summary = criteria.countsOn course.students := summary_eq_countsOn ..
  rw [hsummary]
  refine ⟨rfl, rfl, (length_eq_countP_add_countP_not _ _).symm, ?_, ?_, ?_⟩
  · intro tally htally
    obtain ⟨⟨rule, place⟩, hentry, rfl⟩ := List.mem_map.1 htally
    have hrule : rule ∈ criteria.rules :=
      List.mem_of_getElem? (List.mem_zipIdx_iff_getElem?.1 hentry)
    refine ⟨(length_eq_countP_add_countP_not _ _).symm, ?_, ?_⟩
    · exact List.countP_mono_left fun s _ hall => List.all_eq_true.1 hall rule hrule
    · refine List.countP_mono_left fun s _ hfails => ?_
      rw [Bool.not_eq_true', List.all_eq_false]
      exact ⟨rule, hrule, by simpa using hfails⟩
  · have hfailed : (criteria.countsOn course.students).rules.map (·.failed) =
        criteria.rules.map fun rule =>
          course.students.countP fun s => !rule.passesOn s.results := by
      rw [countsOn, List.map_map, ← List.zipIdx_map_fst 0 criteria.rules, List.map_map]
      simp
    have hdenied : (criteria.countsOn course.students).denied =
        course.students.countP fun s =>
          criteria.rules.any fun rule => !rule.passesOn s.results := by
      simp [countsOn, List.not_all_eq_any_not]
    rw [hfailed, hdenied]
    exact countP_any_le course.students criteria.rules fun rule s => !rule.passesOn s.results
  · intro hrules
    simp [countsOn, hrules, n]

end Criteria

end CourseAdmission
