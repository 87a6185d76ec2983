import CourseAdmission.Criteria.Lint
import CourseAdmission.Proofs.Decimal.Digits
import Mathlib.Data.List.Basic

/-!
Which rules are warned about, and in which words.

A warning on a rule either names an earlier rule that equals it or says what a threshold of zero
means. No two of them have the same words, so from the words in the list of all warnings one can
tell what is the matter with the rule.
-/

namespace CourseAdmission

/-- The warning that a rule equals an earlier one. -/
def duplicateText (first : Nat) : String := "duplicates rule " ++ toString first

/-- The warning on an overall rule with a threshold of zero. -/
def anyAverageText : String := "requiredPercent is 0; rule passes for any non-negative average"

/-- The warning on a rule with two conditions that asks for an average of zero. -/
def averageHoldsText : String := "requiredPercent is 0; the average condition always holds"

/-- The warning on a rule with two conditions that asks for a share of zero. -/
def shareHoldsText : String :=
  "passedAssignmentsPercent is 0; the passed-assignments condition always holds"

theorem duplicateText_injective : Function.Injective duplicateText := by
  intro first other heq
  have hdigits := congrArg String.toList ((String.append_right_inj _).1 heq)
  rw [Nat.toString_eq_repr, Nat.toString_eq_repr, Nat.toList_repr, Nat.toList_repr] at hdigits
  simpa using congrArg Decimal.ofDigits hdigits

theorem toList_duplicateText (first : Nat) : (duplicateText first).toList =
    'd' :: ("uplicates rule ".toList ++ (toString first).toList) := by
  unfold duplicateText
  rw [String.toList_append]
  rfl

theorem duplicateText_ne {c : Char} {cs : List Char} (hc : c ≠ 'd') (first : Nat) :
    duplicateText first ≠ String.ofList (c :: cs) := by
  intro heq
  have hchars := toList_duplicateText first
  rw [heq, String.toList_ofList] at hchars
  exact hc (List.cons.inj hchars).1

theorem duplicateText_ne_anyAverageText (first : Nat) : duplicateText first ≠ anyAverageText :=
  duplicateText_ne (by decide) first

theorem duplicateText_ne_averageHoldsText (first : Nat) :
    duplicateText first ≠ averageHoldsText := duplicateText_ne (by decide) first

theorem duplicateText_ne_shareHoldsText (first : Nat) : duplicateText first ≠ shareHoldsText :=
  duplicateText_ne (by decide) first

theorem averageHoldsText_ne_anyAverageText : averageHoldsText ≠ anyAverageText := by decide

theorem shareHoldsText_ne_anyAverageText : shareHoldsText ≠ anyAverageText := by decide

theorem shareHoldsText_ne_averageHoldsText : shareHoldsText ≠ averageHoldsText := by decide

namespace Criteria

variable {criteria : Criteria} {type : AssignmentType} {average share : Demand}
  {place first : Nat} {message : String}

/-- The rule at a place is warned about in these words. -/
def Flags (criteria : Criteria) (place : Nat) (message : String) : Prop :=
  ⟨some place, message⟩ ∈ criteria.lint

theorem flags_iff : criteria.Flags place message ↔
    (∃ first, (place, first) ∈ criteria.duplicates ∧ duplicateText first = message) ∨
      ∃ rule, criteria.rules[place]? = some rule ∧ message ∈ zeroThresholds rule := by
  unfold duplicateText
  simp only [Flags, lint, indexed, List.mem_append, List.mem_map, List.mem_flatMap, Prod.exists,
    LintWarning.mk.injEq, Option.some_inj, List.mk_mem_zipIdx_iff_getElem?]
  simp

theorem mem_zeroThresholds_overall_iff : message ∈ zeroThresholds (.overall type average) ↔
    (average.required == 0) = true ∧ message = anyAverageText := by
  simp [zeroThresholds, anyAverageText]

theorem mem_zeroThresholds_passedShare_iff :
    message ∈ zeroThresholds (.passedShare type average share) ↔
      ((average.required == 0) = true ∧ message = averageHoldsText) ∨
        ((share.required == 0) = true ∧ message = shareHoldsText) := by
  simp [zeroThresholds, averageHoldsText, shareHoldsText]

theorem duplicateText_notMem_zeroThresholds (first : Nat) (rule : Rule) :
    duplicateText first ∉ zeroThresholds rule := by
  cases rule with
  | overall =>
    rw [mem_zeroThresholds_overall_iff]
    exact fun h => duplicateText_ne_anyAverageText first h.2
  | passedShare =>
    rw [mem_zeroThresholds_passedShare_iff]
    rintro (⟨-, heq⟩ | ⟨-, heq⟩)
    · exact duplicateText_ne_averageHoldsText first heq
    · exact duplicateText_ne_shareHoldsText first heq

theorem flags_duplicateText_iff :
    criteria.Flags place (duplicateText first) ↔ (place, first) ∈ criteria.duplicates := by
  rw [flags_iff]
  constructor
  · rintro (⟨other, hmem, heq⟩ | ⟨rule, -, hmem⟩)
    · rwa [← duplicateText_injective heq]
    · exact absurd hmem (duplicateText_notMem_zeroThresholds first rule)
  · exact fun hmem => .inl ⟨first, hmem, rfl⟩

/-- Words that no repeated rule is warned about with are about a threshold. -/
theorem flags_iff_of_ne (hne : ∀ first, duplicateText first ≠ message) :
    criteria.Flags place message ↔
      ∃ rule, criteria.rules[place]? = some rule ∧ message ∈ zeroThresholds rule := by
  rw [flags_iff, or_iff_right]
  rintro ⟨first, -, heq⟩
  exact hne first heq

theorem flags_anyAverageText_iff : criteria.Flags place anyAverageText ↔
    ∃ type average, criteria.rules[place]? = some (.overall type average) ∧
      (average.required == 0) = true := by
  rw [flags_iff_of_ne duplicateText_ne_anyAverageText]
  constructor
  · rintro ⟨rule, hrule, hmem⟩
    cases rule with
    | overall type average =>
      exact ⟨type, average, hrule, (mem_zeroThresholds_overall_iff.1 hmem).1⟩
    | passedShare =>
      rcases mem_zeroThresholds_passedShare_iff.1 hmem with ⟨-, heq⟩ | ⟨-, heq⟩
      · exact absurd heq.symm averageHoldsText_ne_anyAverageText
      · exact absurd heq.symm shareHoldsText_ne_anyAverageText
  · rintro ⟨type, average, hrule, hzero⟩
    exact ⟨_, hrule, mem_zeroThresholds_overall_iff.2 ⟨hzero, rfl⟩⟩

theorem flags_averageHoldsText_iff : criteria.Flags place averageHoldsText ↔
    ∃ type average share, criteria.rules[place]? = some (.passedShare type average share) ∧
      (average.required == 0) = true := by
  rw [flags_iff_of_ne duplicateText_ne_averageHoldsText]
  constructor
  · rintro ⟨rule, hrule, hmem⟩
    cases rule with
    | overall =>
      exact absurd (mem_zeroThresholds_overall_iff.1 hmem).2 averageHoldsText_ne_anyAverageText
    | passedShare type average share =>
      rcases mem_zeroThresholds_passedShare_iff.1 hmem with ⟨hzero, -⟩ | ⟨-, heq⟩
      · exact ⟨type, average, share, hrule, hzero⟩
      · exact absurd heq.symm shareHoldsText_ne_averageHoldsText
  · rintro ⟨type, average, share, hrule, hzero⟩
    exact ⟨_, hrule, mem_zeroThresholds_passedShare_iff.2 (.inl ⟨hzero, rfl⟩)⟩

theorem flags_shareHoldsText_iff : criteria.Flags place shareHoldsText ↔
    ∃ type average share, criteria.rules[place]? = some (.passedShare type average share) ∧
      (share.required == 0) = true := by
  rw [flags_iff_of_ne duplicateText_ne_shareHoldsText]
  constructor
  · rintro ⟨rule, hrule, hmem⟩
    cases rule with
    | overall =>
      exact absurd (mem_zeroThresholds_overall_iff.1 hmem).2 shareHoldsText_ne_anyAverageText
    | passedShare type average share =>
      rcases mem_zeroThresholds_passedShare_iff.1 hmem with ⟨-, heq⟩ | ⟨hzero, -⟩
      · exact absurd heq shareHoldsText_ne_averageHoldsText
      · exact ⟨type, average, share, hrule, hzero⟩
  · rintro ⟨type, average, share, hrule, hzero⟩
    exact ⟨_, hrule, mem_zeroThresholds_passedShare_iff.2 (.inr ⟨hzero, rfl⟩)⟩

end Criteria

end CourseAdmission
