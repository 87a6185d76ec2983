import CourseAdmission.Proofs.Criteria.Demand
import CourseAdmission.Proofs.Results.TypeTag
import CourseAdmission.Proofs.Verdict.Evaluate

/-!
Results of types that no rule looks at have no influence on a verdict.

A rule sees the results of its own type only: the aggregate of a type is computed from them, and the
aggregates that the rules share are held apart by type. So two lists of results are told apart by a
verdict only if they differ in the results of the types that the criteria name.
-/

namespace CourseAdmission

variable {criteria : Criteria} {results results' : List AssignmentResult} {type : AssignmentType}

/-- The aggregate of a type is computed from the results of the type. -/
theorem TypeAggregate.ofResults_congr (h : matching results type = matching results' type) :
    ofResults results type = ofResults results' type := by
  unfold ofResults
  rw [h]

/-- What a rule says depends on the results of its type, not on those of another rule's type. -/
theorem Rule.resultOn_congr (rule : Rule) (place : Nat)
    (h : TypeAggregate.matching results rule.type = TypeAggregate.matching results' rule.type) :
    rule.resultOn results place = rule.resultOn results' place := by
  unfold resultOn
  rw [TypeAggregate.ofResults_congr h]

theorem Criteria.mem_types_iff :
    type ∈ criteria.types ↔ ∃ rule ∈ criteria.rules, rule.type = type := by
  simp [types, AssignmentType.mem_all]

/-- The results of the types that the rules look at, in order. -/
def Criteria.relevant (criteria : Criteria) (results : List AssignmentResult) :
    List AssignmentResult :=
  results.filter fun r => decide (r.type ∈ criteria.types)

/-- Nothing that a rule sees is left out. -/
theorem Criteria.matching_relevant (hnamed : type ∈ criteria.types) :
    TypeAggregate.matching (criteria.relevant results) type =
      TypeAggregate.matching results type := by
  rw [TypeAggregate.matching, TypeAggregate.matching, relevant, List.filter_filter]
  apply List.filter_congr
  intro r _
  by_cases htype : r.type = type
  · simp [htype, hnamed]
  · simp [htype]

theorem Criteria.relevant_append (criteria : Criteria) (front back : List AssignmentResult) :
    criteria.relevant (front ++ back) = criteria.relevant front ++ criteria.relevant back :=
  List.filter_append _ _

theorem Criteria.relevant_of_unrelated (hunrelated : ∀ r ∈ results, r.type ∉ criteria.types) :
    criteria.relevant results = [] := by
  rw [relevant, List.filter_eq_nil_iff]
  intro r hr
  simpa using hunrelated r hr

/-- The result at a place does not depend on results of other types than the rule's. -/
theorem Criteria.getElem?_results_evaluate_congr {place : Nat} {rule : Rule}
    (hrule : criteria.rules[place]? = some rule)
    (h : TypeAggregate.matching results rule.type = TypeAggregate.matching results' rule.type) :
    (criteria.evaluate results).results[place]? = (criteria.evaluate results').results[place]? := by
  rw [getElem?_results_evaluate, getElem?_results_evaluate, hrule, Option.map_some,
    Option.map_some, rule.resultOn_congr place h]

/-- The results of the rules settle the verdict. -/
theorem Criteria.evaluate_eq_mk (criteria : Criteria) (results : List AssignmentResult) :
    criteria.evaluate results = ⟨(criteria.evaluate results).results.all (·.passed),
      (criteria.evaluate results).results⟩ := by
  rw [evaluate_eq]
  rfl

theorem Criteria.evaluate_congr
    (h : ∀ rule ∈ criteria.rules,
      TypeAggregate.matching results rule.type = TypeAggregate.matching results' rule.type) :
    criteria.evaluate results = criteria.evaluate results' := by
  have hresults : (criteria.evaluate results).results = (criteria.evaluate results').results := by
    apply List.ext_getElem?
    intro place
    cases hrule : criteria.rules[place]? with
    | none =>
      rw [getElem?_results_evaluate, getElem?_results_evaluate, hrule, Option.map_none,
        Option.map_none]
    | some rule =>
      exact getElem?_results_evaluate_congr hrule (h rule (List.mem_of_getElem? hrule))
  rw [evaluate_eq_mk, evaluate_eq_mk criteria results', hresults]

/-- Lists of results that agree in the results of the types that the criteria name get the same
    verdict, with the same details and warnings. So any number of results of other types can stand
    at any place, whatever their percentages, names and flags are. Neither do the results of one
    named type influence what a rule on another type says. -/
theorem Criteria.evaluate_of_relevant_eq (criteria : Criteria) :
    (∀ results results' : List AssignmentResult,
        criteria.relevant results = criteria.relevant results' →
        criteria.evaluate results = criteria.evaluate results') ∧
      (∀ front unrelated back : List AssignmentResult,
        (∀ r ∈ unrelated, r.type ∉ criteria.types) →
        criteria.evaluate (front ++ unrelated ++ back) = criteria.evaluate (front ++ back)) ∧
      ∀ (place : Nat) (rule : Rule) (results results' : List AssignmentResult),
        criteria.rules[place]? = some rule →
        TypeAggregate.matching results rule.type = TypeAggregate.matching results' rule.type →
        (criteria.evaluate results).results[place]? =
          (criteria.evaluate results').results[place]? := by
  have hsame (results results' : List AssignmentResult)
      (hrelevant : criteria.relevant results = criteria.relevant results') :
      criteria.evaluate results = criteria.evaluate results' := by
    apply evaluate_congr
    intro rule hrule
    have hnamed : rule.type ∈ criteria.types := mem_types_iff.2 ⟨rule, hrule, rfl⟩
    rw [← matching_relevant hnamed, hrelevant, matching_relevant hnamed]
  refine ⟨hsame, fun front unrelated back hunrelated => hsame _ _ ?_,
    fun place rule results results' hrule => getElem?_results_evaluate_congr hrule⟩
  rw [relevant_append, relevant_append, relevant_append, relevant_of_unrelated hunrelated,
    List.append_nil]

/-- An undefined seminar result beside the homework that counts. -/
theorem evaluate_of_relevant_eq_homework :
    let criteria : Criteria := ⟨[.overall .homework ⟨50, .up, Binary64.isPercent_fifty, trivial⟩]⟩
    let first : AssignmentResult := ⟨"a", .homework, 40, true⟩
    let second : AssignmentResult := ⟨"b", .homework, 60, false⟩
    let unrelated : AssignmentResult := ⟨"s", .seminar, .nan, true⟩
    criteria.evaluate [first, unrelated, second] = criteria.evaluate [unrelated, first, second] ∧
      criteria.evaluate [first, unrelated, second] = criteria.evaluate [first, second] ∧
      (criteria.evaluate [first, unrelated]).results[0]? =
        (criteria.evaluate [first]).results[0]? := by
  intro criteria first second unrelated
  obtain ⟨hsame, hinserted, hplace⟩ := Criteria.evaluate_of_relevant_eq criteria
  exact ⟨hsame _ _ (by decide +kernel),
    hinserted [first] [unrelated] [second] (by decide +kernel),
    hplace 0 _ _ _ rfl (by decide +kernel)⟩

end CourseAdmission
