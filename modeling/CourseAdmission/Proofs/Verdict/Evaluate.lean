import CourseAdmission.Proofs.Results.Cache
import CourseAdmission.Verdict.Evaluate

/-!
A verdict is what the rules say one by one, each on the aggregate of its own type.

The cache that the rules share only saves work: it is fresh at the start, every request leaves it
fresh, and a fresh cache answers with the aggregate that would be computed without it.
-/

namespace CourseAdmission

/-- Consecutive rules with the aggregates of their types, each computed for itself. -/
theorem Rule.resultsFrom_eq {cache : AggregateCache} (hfresh : cache.Fresh) (index : Nat)
    (rules : List Rule) :
    Rule.resultsFrom cache index rules = (rules.zipIdx index).map fun (rule, place) =>
      rule.result place (TypeAggregate.ofResults cache.results rule.type) := by
  induction rules generalizing cache index with
  | nil => rfl
  | cons rule rules ih =>
    rw [List.zipIdx_cons, List.map_cons, Rule.resultsFrom]
    dsimp only
    rw [ih hfresh.get, AggregateCache.get_eq_ofResults hfresh, AggregateCache.results_get]

/-- The result of the rule at a place on a student's results, without a cache. -/
def Rule.resultOn (results : List AssignmentResult) (rule : Rule) (place : Nat) : RuleResult :=
  rule.result place (TypeAggregate.ofResults results rule.type)

/-- The verdict without a cache. -/
def Criteria.evaluateUncached (criteria : Criteria) (results : List AssignmentResult) : Verdict :=
  let ruleResults := criteria.rules.zipIdx.map fun (rule, place) => rule.resultOn results place
  ⟨ruleResults.all (·.passed), ruleResults⟩

theorem Criteria.evaluate_eq (criteria : Criteria) (results : List AssignmentResult) :
    criteria.evaluate results = criteria.evaluateUncached results := by
  rw [evaluate, Rule.resultsFrom_eq (AggregateCache.fresh_ofResults results)]
  split
  case isTrue hempty =>
    rw [isEmpty, List.isEmpty_iff] at hempty
    rw [evaluateUncached, hempty]
    rfl
  case isFalse => rfl

theorem Criteria.getElem?_results_evaluate (criteria : Criteria) (results : List AssignmentResult)
    (place : Nat) : (criteria.evaluate results).results[place]? =
      criteria.rules[place]?.map fun rule => rule.resultOn results place := by
  rw [evaluate_eq, evaluateUncached]
  cases hrule : criteria.rules[place]? <;> simp [hrule]

/-- The results of a verdict are those of the rules. -/
theorem Criteria.mem_results_evaluate_iff {criteria : Criteria} {results : List AssignmentResult}
    {result : RuleResult} : result ∈ (criteria.evaluate results).results ↔
      ∃ (place : Nat) (rule : Rule), criteria.rules[place]? = some rule ∧
        rule.resultOn results place = result := by
  rw [List.mem_iff_getElem?]
  simp only [getElem?_results_evaluate, Option.map_eq_some_iff]

theorem Criteria.forall_mem_results_evaluate {criteria : Criteria}
    {results : List AssignmentResult} {p : RuleResult → Prop} {q : Rule → Prop}
    (h : ∀ rule place, p (Rule.resultOn results rule place) ↔ q rule) :
    (∀ result ∈ (criteria.evaluate results).results, p result) ↔
      ∀ rule ∈ criteria.rules, q rule := by
  constructor
  · intro hall rule hrule
    obtain ⟨place, hplace⟩ := List.mem_iff_getElem?.1 hrule
    exact (h rule place).1 (hall _ (mem_results_evaluate_iff.2 ⟨place, rule, hplace, rfl⟩))
  · intro hall result hresult
    obtain ⟨place, rule, hplace, rfl⟩ := mem_results_evaluate_iff.1 hresult
    exact (h rule place).2 (hall rule (List.mem_of_getElem? hplace))

theorem Criteria.admitted_evaluate_iff (criteria : Criteria) (results : List AssignmentResult) :
    (criteria.evaluate results).admitted = true ↔ ∀ rule ∈ criteria.rules,
      (rule.outcome (TypeAggregate.ofResults results rule.type)).passed = true := by
  refine Iff.trans ?_ (forall_mem_results_evaluate (p := fun result => result.passed = true)
    fun _ _ => Iff.rfl)
  rw [evaluate_eq]
  exact List.all_eq_true

/-- The warnings that results of a type call for: there are none of them, or some are no
    percentages. -/
def warningsOn (results : List AssignmentResult) (type : AssignmentType) : List DataWarning :=
  let doubtful := results.filter fun r => r.type == type && !decide r.percent.IsPercent
  (if results.all fun r => r.type != type then [.noResults type] else []) ++
    if doubtful = [] then [] else [.outOfRange (doubtful.map (·.id))]

theorem warnings_ofResults (results : List AssignmentResult) (type : AssignmentType) :
    (TypeAggregate.ofResults results type).warnings = warningsOn results type := by
  have hfilter : (TypeAggregate.matching results type).filter
        (fun r => !decide r.percent.IsPercent) =
      results.filter fun r => r.type == type && !decide r.percent.IsPercent := by
    rw [TypeAggregate.matching, List.filter_filter]
    simp only [Bool.and_comm]
  have hnone : (TypeAggregate.matching results type).length = 0 ↔
      (results.all fun r => r.type != type) = true := by
    simp [TypeAggregate.matching, List.filter_eq_nil_iff]
  simp only [TypeAggregate.warnings, TypeAggregate.hasData, TypeAggregate.ofResults, warningsOn,
    hfilter, ← hnone, List.isEmpty_map, List.isEmpty_iff, decide_eq_true_eq,
    Nat.pos_iff_ne_zero, ne_eq, ite_not]

/-- The outcome that recorded details tell, with nothing but themselves to go by. -/
def RuleDetails.Explain (passed : Bool) : RuleDetails → Prop
  | .overall d =>
    d.rounded = d.rounding.apply d.average ∧ (passed = true ↔ d.required ≤ d.rounded)
  | .passedShare d =>
    d.averageRounded = d.averageRounding.apply d.average ∧
      d.shareRounded = d.shareRounding.apply d.share ∧
      (d.averageMet = true ↔ d.averageRequired ≤ d.averageRounded) ∧
      (d.shareMet = true ↔ d.shareRequired ≤ d.shareRounded) ∧
      passed = (d.averageMet && d.shareMet)

theorem Rule.explain_outcome (rule : Rule) (aggregate : TypeAggregate) :
    (rule.outcome aggregate).details.Explain (rule.outcome aggregate).passed := by
  cases rule with
  | overall type average => exact ⟨rfl, decide_eq_true_iff⟩
  | passedShare type average share =>
    exact ⟨rfl, rfl, decide_eq_true_iff, decide_eq_true_iff, rfl⟩

/-- The verdict has one result for each rule in order, with the rule's place, kind and type, its
    outcome on the aggregate of its type computed afresh, and the warnings that the type's results
    call for. Its details explain the outcome, and all rules have to pass. -/
theorem Criteria.evaluate_eq_uncached (criteria : Criteria) (results : List AssignmentResult) :
    criteria.evaluate results = criteria.evaluateUncached results ∧
      (criteria.evaluate results).results.length = criteria.rules.length ∧
      (∀ (place : Nat) (rule : Rule), criteria.rules[place]? = some rule →
        ∃ result, (criteria.evaluate results).results[place]? = some result ∧
          result.index = place ∧ result.kind = rule.kind ∧ result.type = rule.type ∧
          Outcome.mk result.passed result.details =
            rule.outcome (TypeAggregate.ofResults results rule.type) ∧
          result.warnings = warningsOn results rule.type) ∧
      (∀ result ∈ (criteria.evaluate results).results, result.details.Explain result.passed) ∧
      ((criteria.evaluate results).admitted = true ↔
        ∀ result ∈ (criteria.evaluate results).results, result.passed = true) := by
  refine ⟨criteria.evaluate_eq results, ?_, ?_, ?_, ?_⟩
  · simp [evaluate_eq, evaluateUncached]
  · intro place rule hrule
    refine ⟨rule.resultOn results place, ?_, rfl, rfl, rfl, rfl, warnings_ofResults _ _⟩
    rw [getElem?_results_evaluate, hrule, Option.map_some]
  · intro result hresult
    rw [evaluate_eq, evaluateUncached] at hresult
    obtain ⟨⟨rule, place⟩, -, rfl⟩ := List.mem_map.1 hresult
    exact rule.explain_outcome _
  · rw [evaluate_eq]
    exact List.all_eq_true

end CourseAdmission
