import CourseAdmission.Proofs.Criteria.Repeated
import CourseAdmission.Proofs.RoundingPolicy
import CourseAdmission.Proofs.Verdict.TenthGrades
import Mathlib.Data.Set.Finite.List
import Mathlib.Order.Preorder.Finite

/-!
Of several overall rules for one type only the strictest matters.

A demand that accepts an average accepts every greater one, and none accepts an undefined average.
So of two demands one accepts all that the other does, whatever their thresholds and roundings are,
and among the overall rules of a type there is one that passes on the fewest results.
-/

namespace CourseAdmission

open Binary64

/-- The percentages that a demand accepts. -/
def Demand.accepted (demand : Demand) : Set Binary64 := {percent | demand.holds percent = true}

theorem Demand.ne_nan_of_mem_accepted {demand : Demand} {x : Binary64}
    (hx : x ∈ demand.accepted) : x ≠ .nan := by
  rintro rfl
  cases (demand.holds_iff_of_not_isFinite not_isFinite_nan).1 hx

/-- Of two demands one accepts all that the other accepts. -/
theorem Demand.accepted_total (a b : Demand) :
    a.accepted ⊆ b.accepted ∨ b.accepted ⊆ a.accepted := by
  rw [or_iff_not_imp_left, Set.not_subset]
  rintro ⟨x, hxa, hxb⟩ y hyb
  rcases Binary64.le_total (ne_nan_of_mem_accepted hxa) (ne_nan_of_mem_accepted hyb) with hle | hle
  · exact holds_of_le hle hxa
  · exact absurd (holds_of_le hle hyb) hxb

namespace Criteria

variable {criteria : Criteria} {type : AssignmentType} {place other : Nat}

/-- The results on which the rule at a place passes. -/
def passing (criteria : Criteria) (place : Nat) : Set (List AssignmentResult) :=
  {results | (criteria.evaluate results).passedAt place = some true}

/-- An overall rule passes on the results whose average its demand accepts. -/
theorem mem_passing_iff {average : Demand} {results : List AssignmentResult}
    (hrule : criteria.rules[place]? = some (.overall type average)) :
    results ∈ criteria.passing place ↔
      (TypeAggregate.ofResults results type).average ∈ average.accepted := by
  change (criteria.evaluate results).passedAt place = some true ↔ average.holds _ = true
  rw [passedAt_overall hrule, Option.some_inj]

theorem passing_total (hplace : place ∈ criteria.overallPlaces type)
    (hother : other ∈ criteria.overallPlaces type) :
    criteria.passing place ⊆ criteria.passing other ∨
      criteria.passing other ⊆ criteria.passing place := by
  obtain ⟨a, ha⟩ := mem_overallPlaces_iff.1 hplace
  obtain ⟨b, hb⟩ := mem_overallPlaces_iff.1 hother
  refine (a.accepted_total b).imp (fun hsub results hresults => ?_) fun hsub results hresults => ?_
  · exact (mem_passing_iff hb).2 (hsub ((mem_passing_iff ha).1 hresults))
  · exact (mem_passing_iff ha).2 (hsub ((mem_passing_iff hb).1 hresults))

/-- Among the overall rules of a type there is a strictest one, whatever their thresholds and
    roundings are: on every list of results, also of percentages that are no finite numbers or
    overflow, all of these rules pass exactly if it does. -/
theorem exists_strictest (hoverall : criteria.overallPlaces type ≠ []) :
    ∃ strictest ∈ criteria.overallPlaces type, ∀ results : List AssignmentResult,
      (∀ place ∈ criteria.overallPlaces type,
          (criteria.evaluate results).passedAt place = some true) ↔
        (criteria.evaluate results).passedAt strictest = some true := by
  obtain ⟨strictest, hmem, hleast⟩ := Set.Finite.exists_minimalFor criteria.passing
    {place | place ∈ criteria.overallPlaces type} (List.finite_toSet _)
    (List.exists_mem_of_ne_nil _ hoverall)
  refine ⟨strictest, hmem, fun results => ⟨fun hall => hall strictest hmem, ?_⟩⟩
  intro hpassed place hplace
  have hsub : criteria.passing strictest ⊆ criteria.passing place :=
    (passing_total hmem hplace).elim id fun hsub => hleast hplace hsub
  exact hsub hpassed

end Criteria

/-- Three demands on the average homework. Which of them is the strictest shows at a half: an
    average of `50.5` is rounded up to `51`, but not down. -/
def threeThresholds : Criteria :=
  ⟨[.overall .homework ⟨51, .up, by decide +kernel, trivial⟩,
    .overall .homework ⟨51, .down, by decide +kernel, trivial⟩,
    .overall .homework ⟨50, .none, isPercent_fifty, trivial⟩]⟩

theorem exists_strictest_threeThresholds :
    ∃ strictest ∈ threeThresholds.overallPlaces .homework, ∀ results : List AssignmentResult,
      (∀ place ∈ threeThresholds.overallPlaces .homework,
          (threeThresholds.evaluate results).passedAt place = some true) ↔
        (threeThresholds.evaluate results).passedAt strictest = some true :=
  Criteria.exists_strictest (by decide)

end CourseAdmission
