import CourseAdmission.Proofs.Markdown
import CourseAdmission.Report.Markdown

/-!
What is written about numbers, rules, points in time and reports ends neither a line nor a cell,
whatever the values are; only names that come from outside may do so.
-/

namespace CourseAdmission

open Decimal (Digits digits_toDigits digits_zeros)
open Markdown (Inline inline_ofList inline_literal inline_digits inline_append)

/-! ## Numbers -/

@[simp]
theorem inline_zeros (n : Nat) : Inline (zeros n) := inline_digits (digits_zeros n)

theorem Decimal.inline_text_plain (d : Decimal) : Inline (d.text plain) := by
  have hdigits : Digits (toString d.digits).toList := by
    rw [Nat.toString_eq_repr, Nat.toList_repr]
    exact digits_toDigits d.digits
  change Inline (d.positionalText "")
  unfold positionalText
  generalize (toString d.digits).toList = digits at hdigits
  dsimp only
  split
  · simp only [inline_append, inline_digits hdigits, inline_zeros, true_and]
    exact inline_literal (by decide)
  · split
    · simp only [inline_append, inline_digits (hdigits.take _), inline_digits (hdigits.drop _),
        true_and, and_true]
      exact inline_literal (by decide)
    · simp only [inline_append, inline_digits hdigits, inline_zeros, and_true]
      exact inline_literal (by decide)

namespace Binary64

theorem inline_signText (negative : Bool) : Inline (signText negative) := by
  cases negative <;> exact inline_literal (by decide)

@[simp]
theorem inline_toText (x : Binary64) : Inline x.toText := by
  cases x with
  | nan => exact inline_literal (by decide)
  | infinite negative =>
    exact inline_append.2 ⟨inline_signText negative, inline_literal (by decide)⟩
  | finite negative units =>
    exact inline_append.2 ⟨inline_signText negative, Decimal.inline_text_plain _⟩

@[simp]
theorem inline_toFixed (places : Nat) (x : Binary64) : Inline (x.toFixed places) := by
  cases x with
  | nan => exact inline_literal (by decide)
  | infinite negative =>
    exact inline_append.2 ⟨inline_signText negative, inline_literal (by decide)⟩
  | finite negative units =>
    simp only [toFixed, inline_append, inline_signText, Markdown.inline_toString, true_and]
    split
    · exact inline_literal (by decide)
    · simp only [inline_append, inline_zeros, Markdown.inline_toString, and_true]
      exact inline_literal (by decide)

end Binary64

@[simp]
theorem inline_percentText (percent : Binary64) : Inline (percentText percent) :=
  inline_append.2 ⟨Binary64.inline_toFixed 2 percent, inline_literal (by decide)⟩

@[simp]
theorem inline_rateText (percent : Binary64) : Inline (rateText percent) :=
  inline_append.2 ⟨Binary64.inline_toFixed 1 percent, inline_literal (by decide)⟩

/-! ## Rules and their outcomes -/

@[simp]
theorem RuleKind.inline_tag (kind : RuleKind) : Inline kind.tag := by
  cases kind <;> exact inline_literal (by decide)

@[simp]
theorem AssignmentType.inline_tag (type : AssignmentType) : Inline type.tag := by
  cases type <;> exact inline_literal (by decide)

@[simp]
theorem RoundingPolicy.inline_describe (policy : RoundingPolicy) : Inline policy.describe := by
  cases policy with
  | decimals places =>
    simp only [describe, inline_append, Markdown.inline_toString, and_true]
    and_intros <;> exact inline_literal (by decide)
  | _ => exact inline_literal (by decide)

@[simp]
theorem inline_roundedText (rounding : RoundingPolicy) (rounded : Binary64) :
    Inline (roundedText rounding rounded) := by
  simp only [roundedText, inline_append, RoundingPolicy.inline_describe, Binary64.inline_toText,
    and_true]
  and_intros <;> exact inline_literal (by decide)

theorem OverallDetails.inline_explain (d : OverallDetails) : Inline d.explain := by
  -- The equation of a definition that holds a long text is slow to derive, unfolding it is not.
  unfold explain
  simp only [inline_append, inline_percentText, inline_roundedText, Binary64.inline_toText,
    and_true]
  and_intros <;> exact inline_literal (by decide)

theorem PassedShareDetails.inline_explain (d : PassedShareDetails) : Inline d.explain := by
  unfold explain
  simp only [inline_append, inline_percentText, inline_roundedText, Binary64.inline_toText,
    Markdown.inline_toString, and_true]
  and_intros <;> exact inline_literal (by decide)

@[simp]
theorem RuleDetails.inline_explain : ∀ details : RuleDetails, Inline details.explain
  | .overall d => d.inline_explain
  | .passedShare d => d.inline_explain

namespace RuleResult

/-- The outcome of a rule stays on its line and in its cell. -/
theorem inline_summary (result : RuleResult) : Inline result.summary := by
  have houtcome : Inline (if result.passed then "passed" else "failed") := by
    split <;> exact inline_literal (by decide)
  unfold summary
  simp only [inline_append, Markdown.inline_toString, RuleKind.inline_tag,
    AssignmentType.inline_tag, houtcome, RuleDetails.inline_explain, and_true]
  and_intros <;> exact inline_literal (by decide)

end RuleResult

namespace DataWarning

/-- The assignments that a warning names. -/
def ids : DataWarning → List String
  | .noResults _ => []
  | .outOfRange ids => ids

/-- The line ends in a warning are those in the names of the assignments. -/
theorem lineEnds_message (warning : DataWarning) :
    Text.lineEnds warning.message = (warning.ids.map Text.lineEnds).sum := by
  cases warning with
  | noResults type =>
    have hmessage : Inline (message (.noResults type)) := by
      unfold message
      simp only [inline_append, AssignmentType.inline_tag, and_true]
      and_intros <;> exact inline_literal (by decide)
    exact hmessage.lineEnds_eq_zero
  | outOfRange ids =>
    have hopening : Inline "achieved percent outside 0-100 for: " := inline_literal (by decide)
    change Text.lineEnds (_ ++ ", ".intercalate ids) = _
    rw [Text.lineEnds_append, hopening.lineEnds_eq_zero, Text.lineEnds_intercalate rfl,
      Nat.zero_add, DataWarning.ids]

end DataWarning

/-! ## Points in time and identifiers -/

namespace Instant

@[simp]
theorem inline_padded (width n : Nat) : Inline (padded width n) :=
  inline_append.2 ⟨inline_zeros _, Markdown.inline_toString n⟩

@[simp]
theorem inline_yearText (year : Int) : Inline (yearText year) := by
  unfold yearText
  split
  · exact inline_padded 4 _
  · have hsign : Inline (if year < 0 then "-" else "+") := by
      split <;> exact inline_literal (by decide)
    exact inline_append.2 ⟨hsign, inline_padded 4 _⟩

@[simp]
theorem inline_display (t : Instant) : Inline t.display := by
  unfold display dateText timeText
  simp only [inline_append, inline_yearText, inline_padded, and_true, true_and]
  and_intros <;> exact inline_literal (by decide)

end Instant

namespace Uuid

theorem inline_cut (widths : List Nat) {cs : List Char} (h : Inline (String.ofList cs)) :
    ∀ part ∈ cut widths cs, Inline (String.ofList part) := by
  induction widths generalizing cs with
  | nil => simp [cut]
  | cons width widths ih =>
    rw [Inline, Text.Lacks, String.toList_ofList] at h
    refine List.forall_mem_cons.2 ⟨inline_ofList fun c hc => h c (List.mem_of_mem_take hc), ?_⟩
    exact ih (inline_ofList fun c hc => h c (List.mem_of_mem_drop hc))

theorem inline_hexDigits (count n : Nat) : Inline (String.ofList (hexDigits count n)) := by
  have hdigit : ∀ d < 16, Json.hexDigit d ∉ Markdown.marks := by decide
  refine inline_ofList fun c hc => ?_
  obtain ⟨i, -, rfl⟩ := List.mem_map.1 (List.mem_reverse.1 hc)
  exact hdigit _ (Nat.mod_lt _ (by decide))

@[simp]
theorem inline_toText (u : Uuid) : Inline u.toText :=
  Markdown.inline_intercalate (inline_literal (by decide))
    (List.forall_mem_map.2 (inline_cut groups (inline_hexDigits 32 u.bits.toNat)))

end Uuid

end CourseAdmission
