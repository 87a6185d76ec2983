import CourseAdmission.Proofs.ExactSum.NonFinite
import CourseAdmission.Proofs.Verdict.Growth

/-!
Results whose percentage is undefined or infinite.

Their average is what they alone add up to, whatever the finite percentages are. Rounding leaves it
as it is, so that a rule on it passes only for the positive infinity, and the results are always
warned about.
-/

namespace CourseAdmission

open Binary64 ExactSum

variable {results : List AssignmentResult} {type : AssignmentType}

/-- Dividing by a count keeps what is no finite number. -/
theorem TypeAggregate.mean_of_nonFinite {percents : List Binary64}
    (hnonFinite : ∃ p ∈ percents, ¬p.isFinite = true) (hlength : percents.length < Word.limit 64) :
    mean percents = nonFiniteSum percents := by
  have hne : percents ≠ [] := by
    rintro rfl
    simp at hnonFinite
  obtain ⟨hcount, hone⟩ := one_le_count (List.length_pos_iff.2 hne) hlength
  have hpos := unitsPerOne_pos
  have hdiv := keepsSign_div hcount (by omega)
  rw [mean, if_neg (by simpa using hne), total_ofList_of_nonFinite hnonFinite]
  exact hdiv.eq_self (not_isFinite_nonFiniteSum hnonFinite)

/-- Some result of the type has no finite percentage. -/
def HasNonFinite (results : List AssignmentResult) (type : AssignmentType) : Prop :=
  ∃ r ∈ results, r.type = type ∧ ¬r.percent.isFinite = true

/-- A percentage occurs among the results of a type. -/
def Occurs (results : List AssignmentResult) (type : AssignmentType) (percent : Binary64) : Prop :=
  ∃ r ∈ results, r.type = type ∧ r.percent = percent

instance (results : List AssignmentResult) (type : AssignmentType) :
    Decidable (HasNonFinite results type) :=
  inferInstanceAs (Decidable (∃ r ∈ results, r.type = type ∧ ¬r.percent.isFinite = true))

instance (results : List AssignmentResult) (type : AssignmentType) (percent : Binary64) :
    Decidable (Occurs results type percent) :=
  inferInstanceAs (Decidable (∃ r ∈ results, r.type = type ∧ r.percent = percent))

theorem mem_percents_iff {percent : Binary64} :
    percent ∈ (TypeAggregate.matching results type).map (·.percent) ↔
      Occurs results type percent := by
  simp [TypeAggregate.matching, Occurs, and_assoc]

theorem average_of_nonFinite (hnonFinite : HasNonFinite results type)
    (hlength : results.length < Word.limit 64) :
    (TypeAggregate.ofResults results type).average =
      nonFiniteSum ((TypeAggregate.matching results type).map (·.percent)) := by
  obtain ⟨r, hr, htype, hpercent⟩ := hnonFinite
  apply TypeAggregate.mean_of_nonFinite
  · exact ⟨r.percent, mem_percents_iff.2 ⟨r, hr, htype, rfl⟩, hpercent⟩
  · rw [List.length_map]
    exact length_matching_lt hlength type

theorem not_isFinite_average (hnonFinite : HasNonFinite results type)
    (hlength : results.length < Word.limit 64) :
    ¬(TypeAggregate.ofResults results type).average.isFinite = true := by
  rw [average_of_nonFinite hnonFinite hlength]
  obtain ⟨r, hr, htype, hpercent⟩ := hnonFinite
  exact not_isFinite_nonFiniteSum ⟨r.percent, mem_percents_iff.2 ⟨r, hr, htype, rfl⟩, hpercent⟩

theorem average_eq_nan_iff (hnonFinite : HasNonFinite results type)
    (hlength : results.length < Word.limit 64) :
    (TypeAggregate.ofResults results type).average = .nan ↔
      Occurs results type .nan ∨ ∀ negative, Occurs results type (.infinite negative) := by
  rw [average_of_nonFinite hnonFinite hlength, nonFiniteSum_eq_iff not_isFinite_nan, AddsUpTo]
  simp only [mem_percents_iff]

theorem average_eq_infinite_iff (hnonFinite : HasNonFinite results type)
    (hlength : results.length < Word.limit 64) (negative : Bool) :
    (TypeAggregate.ofResults results type).average = .infinite negative ↔
      Occurs results type (.infinite negative) ∧ ¬Occurs results type .nan ∧
        ¬Occurs results type (.infinite !negative) := by
  rw [average_of_nonFinite hnonFinite hlength,
    nonFiniteSum_eq_iff (not_isFinite_infinite negative), AddsUpTo]
  simp only [mem_percents_iff]

/-- On an average that is no finite number, an overall rule passes if it is the positive infinity,
    and no other rule passes on another one. -/
theorem Rule.passed_of_not_isFinite (rule : Rule) {aggregate : TypeAggregate}
    (hnonFinite : ¬aggregate.average.isFinite = true) :
    ((rule.outcome aggregate).passed = true → aggregate.average = .infinite false) ∧
      (rule.kind = .overall → aggregate.average = .infinite false →
        (rule.outcome aggregate).passed = true) := by
  cases rule with
  | overall type average =>
    have hholds := average.holds_iff_of_not_isFinite hnonFinite
    exact ⟨hholds.1, fun _ => hholds.2⟩
  | passedShare type average share =>
    refine ⟨fun hpassed => ?_, nofun⟩
    obtain ⟨haverage, -⟩ := Bool.and_eq_true_iff.1 hpassed
    exact (average.holds_iff_of_not_isFinite hnonFinite).1 haverage

/-- What is no finite number is no percentage, and is warned about. -/
theorem exists_outOfRange_of_nonFinite (hnonFinite : HasNonFinite results type) :
    ∃ ids, .outOfRange ids ∈ (TypeAggregate.ofResults results type).warnings ∧
      ∀ r ∈ results, r.type = type → ¬r.percent.isFinite = true → r.id ∈ ids := by
  have hdoubtful : ∀ r ∈ results, r.type = type → ¬r.percent.isFinite = true →
      r ∈ results.filter fun r => r.type == type && !decide r.percent.IsPercent := by
    intro r hr htype hpercent
    have hrange : ¬r.percent.IsPercent := fun h => hpercent h.isFinite
    simp [hr, htype, hrange]
  obtain ⟨r, hr, htype, hpercent⟩ := hnonFinite
  have hne := List.ne_nil_of_mem (hdoubtful r hr htype hpercent)
  refine ⟨_, ?_, fun r hr htype hpercent =>
    List.mem_map_of_mem (hdoubtful r hr htype hpercent)⟩
  rw [warnings_ofResults, warningsOn, if_neg hne]
  simp

/-- Consider a rule and results of its type some of which have no finite percentage. The average is
    undefined if one of them is or if both infinities occur, and otherwise the infinity that occurs,
    whatever the finite percentages are. An overall rule passes exactly if it is the positive
    infinity, and no rule passes otherwise. The result warns about every one of these
    percentages. -/
theorem Criteria.evaluate_of_nonFinite {criteria : Criteria} {place : Nat} {rule : Rule}
    (hrule : criteria.rules[place]? = some rule) (hnonFinite : HasNonFinite results rule.type)
    (hlength : results.length < Word.limit 64) :
    let average := (TypeAggregate.ofResults results rule.type).average
    (average = .nan ↔ Occurs results rule.type .nan ∨
        ∀ negative, Occurs results rule.type (.infinite negative)) ∧
      (∀ negative, average = .infinite negative ↔
        Occurs results rule.type (.infinite negative) ∧ ¬Occurs results rule.type .nan ∧
          ¬Occurs results rule.type (.infinite !negative)) ∧
      (rule.kind = .overall →
        ((criteria.evaluate results).passedAt place = some true ↔ average = .infinite false)) ∧
      ((criteria.evaluate results).passedAt place = some true → average = .infinite false) ∧
      ∃ result, (criteria.evaluate results).results[place]? = some result ∧
        ∃ ids, .outOfRange ids ∈ result.warnings ∧
          ∀ r ∈ results, r.type = rule.type → ¬r.percent.isFinite = true → r.id ∈ ids := by
  intro average
  have hpassed := rule.passed_of_not_isFinite (not_isFinite_average hnonFinite hlength)
  have hplace : (criteria.evaluate results).passedAt place = some true ↔
      (rule.outcome (TypeAggregate.ofResults results rule.type)).passed = true := by
    rw [passedAt_evaluate, hrule, Option.map_some, Option.some_inj]
  refine ⟨average_eq_nan_iff hnonFinite hlength, average_eq_infinite_iff hnonFinite hlength,
    fun hkind => ?_, fun h => hpassed.1 (hplace.1 h), rule.resultOn results place, ?_, ?_⟩
  · rw [hplace]
    exact ⟨hpassed.1, hpassed.2 hkind⟩
  · rw [getElem?_results_evaluate, hrule, Option.map_some]
  · exact exists_outOfRange_of_nonFinite hnonFinite

/-- Two results that overflow together, and an infinite one. -/
def overflowing : List AssignmentResult :=
  [⟨"a", .homework, .ofDecimal false 15 307, true⟩, ⟨"b", .homework, .infinite true, true⟩,
    ⟨"c", .homework, .ofDecimal false 15 307, true⟩]

/-- An overall rule that asks for nothing. -/
def zeroOfHomework : Criteria := ⟨[.overall .homework ⟨0, .none, by decide +kernel, trivial⟩]⟩

theorem evaluate_of_nonFinite_overflowing :
    (TypeAggregate.ofResults overflowing .homework).average = .infinite true ∧
      (zeroOfHomework.evaluate overflowing).passedAt 0 ≠ some true := by
  obtain ⟨-, hinfinite, hoverall, -, -⟩ :=
    @Criteria.evaluate_of_nonFinite overflowing zeroOfHomework 0 _ rfl (by decide +kernel)
      (by decide)
  have haverage := (hinfinite true).2 (by decide +kernel)
  refine ⟨haverage, fun h => ?_⟩
  cases haverage.symm.trans ((hoverall rfl).1 h)

end CourseAdmission
