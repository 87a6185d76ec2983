import CourseAdmission.Proofs.Results.Growth
import CourseAdmission.Proofs.RoundingPolicy
import CourseAdmission.Proofs.Verdict.TenthGrades

/-!
Better results never cost an admission.

The aggregate of a type only grows when no result gets worse, a greater percentage meets every
demand that a smaller one meets, and a rule is a conjunction of demands.
-/

namespace CourseAdmission

open Binary64 ExactSum

/-- The same assignment, done no worse. -/
structure AssignmentResult.NoWorse (before after : AssignmentResult) : Prop where
  id : before.id = after.id
  type : before.type = after.type
  percent : before.percent ≤ after.percent
  passed : before.passed = true → after.passed = true

/-- Percentages that are no smaller. -/
structure TypeAggregate.NoSmaller (before after : TypeAggregate) : Prop where
  average : before.average ≤ after.average
  passedPercent : before.passedPercent ≤ after.passedPercent

variable {results results' : List AssignmentResult}

theorem forall₂_matching (hresults : List.Forall₂ AssignmentResult.NoWorse results results')
    (type : AssignmentType) :
    List.Forall₂ AssignmentResult.NoWorse (TypeAggregate.matching results type)
      (TypeAggregate.matching results' type) :=
  List.rel_filter (fun _ _ h => by simp only [h.type]) hresults

theorem countP_passed_le (hresults : List.Forall₂ AssignmentResult.NoWorse results results') :
    results.countP (·.passed) ≤ results'.countP (·.passed) := by
  induction hresults with
  | nil => exact le_rfl
  | @cons r r' results results' hr _ ih =>
    rw [List.countP_cons, List.countP_cons]
    by_cases hbefore : r.passed = true
    · rw [if_pos hbefore, if_pos (hr.passed hbefore)]
      omega
    · rw [if_neg hbefore]
      omega

theorem noSmaller_ofResults (hresults : List.Forall₂ AssignmentResult.NoWorse results results')
    (hfinite : ∀ r ∈ results, r.percent.isFinite) (hfinite' : ∀ r ∈ results', r.percent.isFinite)
    (hroom : 2 * absoluteSum results < unitLimit) (hroom' : 2 * absoluteSum results' < unitLimit)
    (hlength : results.length < Word.limit 64) (type : AssignmentType) :
    (TypeAggregate.ofResults results type).NoSmaller (TypeAggregate.ofResults results' type) := by
  have hown := forall₂_matching hresults type
  have hownLength := length_matching_lt hlength type
  have hownRoom := absoluteSum_matching_le results type
  have hownRoom' := absoluteSum_matching_le results' type
  have hownFinite : ∀ r ∈ TypeAggregate.matching results type, r.percent.isFinite :=
    fun r hr => hfinite r (List.mem_of_mem_filter hr)
  have hownFinite' : ∀ r ∈ TypeAggregate.matching results' type, r.percent.isFinite :=
    fun r hr => hfinite' r (List.mem_of_mem_filter hr)
  rw [absoluteSum_eq hownFinite] at hownRoom
  rw [absoluteSum_eq hownFinite'] at hownRoom'
  constructor
  · apply TypeAggregate.mean_le_mean
    · rw [List.forall₂_map_left_iff, List.forall₂_map_right_iff]
      exact hown.imp fun _ _ h => h.percent
    · simpa using hownFinite
    · simpa using hownFinite'
    · omega
    · omega
    · rwa [List.length_map]
  · change percentOf _ _ ≤ percentOf _ _
    rw [← hown.length_eq]
    exact percentOf_le_percentOf (countP_passed_le hown) hownLength

/-- A rule that passes keeps passing on an aggregate with no smaller percentages. -/
theorem Rule.passed_of_noSmaller (rule : Rule) {before after : TypeAggregate}
    (hgrow : before.NoSmaller after) (hpassed : (rule.outcome before).passed = true) :
    (rule.outcome after).passed = true := by
  cases rule with
  | overall type average => exact Demand.holds_of_le hgrow.average hpassed
  | passedShare type average share =>
    obtain ⟨haverage, hshare⟩ := Bool.and_eq_true_iff.1 hpassed
    exact Bool.and_eq_true_iff.2 ⟨Demand.holds_of_le hgrow.average haverage,
      Demand.holds_of_le hgrow.passedPercent hshare⟩

theorem Criteria.passedAt_evaluate (criteria : Criteria) (place : Nat) :
    (criteria.evaluate results).passedAt place = criteria.rules[place]?.map fun rule =>
      (rule.outcome (TypeAggregate.ofResults results rule.type)).passed := by
  rw [Verdict.passedAt, getElem?_results_evaluate, Option.map_map]
  rfl

/-- Let all percentages be finite, with absolute values that sum up to less than `2 ^ 1023`, and no
    more results than a word counts. If no result gets worse, each rule that passes keeps passing,
    whatever its rounding, and an admitted student stays admitted. -/
theorem Criteria.evaluate_of_noWorse (criteria : Criteria)
    (hresults : List.Forall₂ AssignmentResult.NoWorse results results')
    (hfinite : ∀ r ∈ results, r.percent.isFinite) (hfinite' : ∀ r ∈ results', r.percent.isFinite)
    (hroom : 2 * absoluteSum results < unitLimit) (hroom' : 2 * absoluteSum results' < unitLimit)
    (hlength : results.length < Word.limit 64) :
    (∀ place, (criteria.evaluate results).passedAt place = some true →
        (criteria.evaluate results').passedAt place = some true) ∧
      ((criteria.evaluate results).admitted = true →
        (criteria.evaluate results').admitted = true) := by
  have hgrow := noSmaller_ofResults hresults hfinite hfinite' hroom hroom' hlength
  constructor
  · intro place hpassed
    rw [passedAt_evaluate, Option.map_eq_some_iff] at hpassed ⊢
    obtain ⟨rule, hrule, hpassed⟩ := hpassed
    exact ⟨rule, hrule, rule.passed_of_noSmaller (hgrow rule.type) hpassed⟩
  · intro hadmitted
    rw [admitted_evaluate_iff] at hadmitted ⊢
    exact fun rule hrule => rule.passed_of_noSmaller (hgrow rule.type) (hadmitted rule hrule)

/-- Half of the homework has to be passed, and half of the points reached to the nearest percent. -/
def halfOfHomework : Criteria :=
  ⟨[.passedShare .homework ⟨50, .decimals 0, isPercent_fifty, by decide⟩
    ⟨50, .none, isPercent_fifty, trivial⟩]⟩

/-- A student whose second homework gets better. -/
theorem evaluate_of_noWorse_halfOfHomework :
    (halfOfHomework.evaluate [⟨"a", .homework, 30, true⟩, ⟨"b", .homework, 69, false⟩]).admitted =
        true ∧
      (halfOfHomework.evaluate [⟨"a", .homework, 30, true⟩, ⟨"b", .homework, 80, true⟩]).admitted =
        true := by
  have hadmitted : (halfOfHomework.evaluate
      [⟨"a", .homework, 30, true⟩, ⟨"b", .homework, 69, false⟩]).admitted = true := by
    decide +kernel
  refine ⟨hadmitted, (halfOfHomework.evaluate_of_noWorse ?_ (by decide +kernel)
    (by decide +kernel) (by decide +kernel) (by decide +kernel) (by decide)).2 hadmitted⟩
  exact .cons ⟨rfl, rfl, by decide +kernel, id⟩
    (.cons ⟨rfl, rfl, by decide +kernel, fun _ => rfl⟩ .nil)

end CourseAdmission
