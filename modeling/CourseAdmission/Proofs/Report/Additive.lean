import CourseAdmission.Proofs.Criteria.Demand
import CourseAdmission.Proofs.Report.Counts
import Mathlib.Data.List.Induction

/-!
The counts of a report student by student.

One more student raises the counts of a report, those of the rules in place. A result at a place
without a rule changes nothing, and a repeated one is counted each time. So the counts over two
groups of students add up, whatever the verdicts hold.
-/

namespace CourseAdmission

namespace RuleTally

/-- So many more results that passed and failed. -/
def add (tally : RuleTally) (passed failed : Nat) : RuleTally :=
  { tally with passed := tally.passed + passed, failed := tally.failed + failed }

/-- One more result with this outcome. -/
def count (tally : RuleTally) (passed : Bool) : RuleTally :=
  if passed then tally.add 1 0 else tally.add 0 1

end RuleTally

namespace Summary

/-- One more result, counted at its place. -/
def countResult (tallies : List RuleTally) (result : RuleResult) : List RuleTally :=
  tallies.modify result.index (·.count result.passed)

/-- One more student. -/
def countStudent (summary : Summary) (student : StudentVerdict) : Summary where
  total := summary.total + 1
  admitted := summary.admitted + if student.verdict.admitted then 1 else 0
  denied := summary.denied + if student.verdict.admitted then 0 else 1
  withWarnings := summary.withWarnings + if student.verdict.hasWarnings then 1 else 0
  rules := student.verdict.results.foldl countResult summary.rules

/-- The counts over two groups of students, rule by rule. -/
def add (a b : Summary) : Summary where
  total := a.total + b.total
  admitted := a.admitted + b.admitted
  denied := a.denied + b.denied
  withWarnings := a.withWarnings + b.withWarnings
  rules := List.zipWith (fun tally more => tally.add more.passed more.failed) a.rules b.rules

/-- The counts before the first student. -/
def initial (criteria : Criteria) : Summary where
  total := 0
  admitted := 0
  denied := 0
  withWarnings := 0
  rules := criteria.rules.zipIdx.map fun (rule, index) => ⟨index, rule.kind, rule.type, 0, 0⟩

/-- Results that are counted one by one raise the tally at a place by their numbers there. -/
theorem getElem?_foldl_countResult (results : List RuleResult) (tallies : List RuleTally)
    (place : Nat) : (results.foldl countResult tallies)[place]? =
      tallies[place]?.map fun tally => tally.add
        (results.countP fun r => r.index == place && r.passed == true)
        (results.countP fun r => r.index == place && r.passed == false) := by
  induction results generalizing tallies with
  | nil => simp [RuleTally.add]
  | cons result results ih =>
    rw [List.foldl_cons, ih, countResult, List.getElem?_modify]
    cases tallies[place]? with
    | none => rfl
    | some tally =>
      by_cases hplace : result.index = place <;> cases hpassed : result.passed <;>
        simp [RuleTally.count, RuleTally.add, hplace, hpassed, Nat.add_assoc, Nat.add_comm]

/-- At the place of a rule stands its tally. -/
theorem getElem?_rules_ofVerdicts (criteria : Criteria) (students : List StudentVerdict)
    (place : Nat) : (ofVerdicts criteria students).rules[place]? =
      criteria.rules[place]?.map (tally students place) := by
  rw [ofVerdicts]
  cases hrule : criteria.rules[place]? <;> simp [hrule]

theorem countOutcome_append (xs ys : List StudentVerdict) (index : Nat) (passed : Bool) :
    countOutcome (xs ++ ys) index passed =
      countOutcome xs index passed + countOutcome ys index passed := by
  rw [countOutcome, List.flatMap_append, List.countP_append, countOutcome, countOutcome]

/-- The denied are counted as the rest, and there are as many. -/
theorem denied_ofVerdicts (criteria : Criteria) (students : List StudentVerdict) :
    (ofVerdicts criteria students).denied = students.countP fun s => !s.verdict.admitted := by
  have hsplit := length_eq_countP_add_countP_not students (·.verdict.admitted)
  change students.length - students.countP (·.verdict.admitted) = _
  omega

theorem ofVerdicts_append (criteria : Criteria) (xs ys : List StudentVerdict) :
    ofVerdicts criteria (xs ++ ys) = (ofVerdicts criteria xs).add (ofVerdicts criteria ys) := by
  have hdenied : (ofVerdicts criteria (xs ++ ys)).denied =
      (ofVerdicts criteria xs).denied + (ofVerdicts criteria ys).denied := by
    rw [denied_ofVerdicts, denied_ofVerdicts, denied_ofVerdicts, List.countP_append]
  have hrules : (ofVerdicts criteria (xs ++ ys)).rules =
      ((ofVerdicts criteria xs).add (ofVerdicts criteria ys)).rules := by
    refine List.ext_getElem? fun place => ?_
    rw [add, List.getElem?_zipWith, getElem?_rules_ofVerdicts, getElem?_rules_ofVerdicts,
      getElem?_rules_ofVerdicts]
    cases criteria.rules[place]? with
    | none => rfl
    | some rule => simp [tally, RuleTally.add, countOutcome_append]
  exact (Summary.mk.injEq ..).mpr ⟨List.length_append, List.countP_append, hdenied,
    List.countP_append, hrules⟩

/-- Counting one more student is the step of the whole count. -/
theorem ofVerdicts_concat (criteria : Criteria) (students : List StudentVerdict)
    (student : StudentVerdict) : ofVerdicts criteria (students ++ [student]) =
      (ofVerdicts criteria students).countStudent student := by
  have hcount (p : StudentVerdict → Bool) : (students ++ [student]).countP p =
      students.countP p + if p student then 1 else 0 := by
    rw [List.countP_append, List.countP_singleton]
  have hdenied : (ofVerdicts criteria (students ++ [student])).denied =
      ((ofVerdicts criteria students).countStudent student).denied := by
    rw [countStudent, denied_ofVerdicts, denied_ofVerdicts, hcount]
    cases student.verdict.admitted <;> rfl
  have hrules : (ofVerdicts criteria (students ++ [student])).rules =
      ((ofVerdicts criteria students).countStudent student).rules := by
    refine List.ext_getElem? fun place => ?_
    rw [countStudent, getElem?_foldl_countResult, getElem?_rules_ofVerdicts,
      getElem?_rules_ofVerdicts]
    cases criteria.rules[place]? with
    | none => rfl
    | some rule => simp [tally, RuleTally.add, countOutcome]
  exact (Summary.mk.injEq ..).mpr ⟨List.length_append, hcount _, hdenied, hcount _, hrules⟩

/-- So the counts are what counting the students one by one comes to. -/
theorem ofVerdicts_eq_foldl (criteria : Criteria) (students : List StudentVerdict) :
    ofVerdicts criteria students = students.foldl countStudent (initial criteria) := by
  induction students using List.reverseRecOn with
  | nil => rfl
  | append_singleton students student ih =>
    rw [ofVerdicts_concat, ih, List.foldl_append, List.foldl_cons, List.foldl_nil]

/-- No count depends on the order of the students. -/
theorem ofVerdicts_perm (criteria : Criteria) {xs ys : List StudentVerdict} (hperm : xs.Perm ys) :
    ofVerdicts criteria xs = ofVerdicts criteria ys := by
  have houtcome : countOutcome xs = countOutcome ys := by
    funext index passed
    exact (hperm.flatMap_right _).countP_eq _
  have htally : tally xs = tally ys := by
    funext index rule
    rw [tally, tally, houtcome]
  rw [ofVerdicts, ofVerdicts, hperm.length_eq, hperm.countP_eq, hperm.countP_eq, htally]

/-- For any criteria and any verdicts, also such as no criteria lead to, the counts over two groups
    of students add up, for each rule and over all, and come to what counting the students one by
    one in place comes to. There is one tally for each rule in order, with the rule's place, kind
    and type. No more students are admitted than there are, so the denied are the rest, and the
    order of the students does not matter. -/
theorem ofVerdicts_additive (criteria : Criteria) (xs ys : List StudentVerdict) :
    ofVerdicts criteria (xs ++ ys) = (ofVerdicts criteria xs).add (ofVerdicts criteria ys) ∧
      ofVerdicts criteria xs = xs.foldl countStudent (initial criteria) ∧
      (ofVerdicts criteria xs).rules.length = criteria.rules.length ∧
      (∀ (place : Nat) (rule : Rule), criteria.rules[place]? = some rule →
        ∃ tally, (ofVerdicts criteria xs).rules[place]? = some tally ∧ tally.index = place ∧
          tally.kind = rule.kind ∧ tally.type = rule.type) ∧
      (ofVerdicts criteria xs).admitted ≤ (ofVerdicts criteria xs).total ∧
      (ofVerdicts criteria xs).admitted + (ofVerdicts criteria xs).denied =
        (ofVerdicts criteria xs).total ∧
      (xs.Perm ys → ofVerdicts criteria xs = ofVerdicts criteria ys) := by
  have hadmitted : (ofVerdicts criteria xs).admitted ≤ (ofVerdicts criteria xs).total :=
    List.countP_le_length
  refine ⟨ofVerdicts_append criteria xs ys, ofVerdicts_eq_foldl criteria xs, ?_,
    fun place rule hrule => ?_, hadmitted, Nat.add_sub_of_le hadmitted, ofVerdicts_perm criteria⟩
  · simp [ofVerdicts]
  · refine ⟨tally xs place rule, ?_, rfl, rfl, rfl⟩
    rw [getElem?_rules_ofVerdicts, hrule, Option.map_some]

/-- A result on the homework, at any place. -/
def homeworkResult (index : Nat) (passed : Bool) : RuleResult where
  index := index
  kind := .overall
  type := .homework
  passed := passed
  details := .overall ⟨1, 50, .none, 50, 50⟩
  warnings := []

/-- Verdicts as no criteria lead to: one has a result twice and another at a place without a rule,
    and one has none and yet denies. -/
theorem ofVerdicts_additive_homework :
    let half : Demand := ⟨50, .none, Binary64.isPercent_fifty, trivial⟩
    let criteria : Criteria := ⟨[.overall .homework half, .overall .testat half]⟩
    let first : StudentVerdict :=
      ⟨"a", true, [homeworkResult 0 true, homeworkResult 0 false, homeworkResult 7 true]⟩
    let second : StudentVerdict := ⟨"b", false, []⟩
    ofVerdicts criteria [first, second] = ofVerdicts criteria [second, first] ∧
      (ofVerdicts criteria [first, second]).rules.map (fun t => (t.passed, t.failed)) =
        [(1, 1), (0, 0)] ∧
      (ofVerdicts criteria [first, second]).denied = 1 := by
  intro half criteria first second
  obtain ⟨-, hfold, -, -, -, -, hperm⟩ :=
    ofVerdicts_additive criteria [first, second] [second, first]
  refine ⟨hperm (.swap ..), ?_, ?_⟩
  · rw [hfold]
    decide
  · rw [hfold]
    decide

end Summary

end CourseAdmission
