import CourseAdmission.Criteria.Draft
import CourseAdmission.Proofs.Binary64.Order
import CourseAdmission.Proofs.Criteria.Demand
import CourseAdmission.Proofs.Except
import CourseAdmission.Proofs.Report.Change

/-!
Drafts whose percentages are equal as numbers are checked with the same outcome.

A zero may have either sign. Rules are compared by the values of their thresholds, and no zero is
refused, so neither equality nor an error tells the signs apart.
-/

namespace CourseAdmission

variable {x y : Binary64}

namespace Binary64

theorem isPercent_congr (h : (x == y) = true) : x.IsPercent ↔ y.IsPercent := by
  obtain ⟨hxy, hyx⟩ := beq_iff_le_le.1 h
  exact ⟨fun hx => ⟨le_trans hx.1 hxy, le_trans hyx hx.2⟩,
    fun hy => ⟨le_trans hy.1 hyx, le_trans hxy hy.2⟩⟩

/-- A zero of either sign is a percentage, so numbers out of range are equal altogether. -/
theorem eq_of_beq_of_not_isPercent (h : (x == y) = true) (hx : ¬x.IsPercent) : x = y := by
  rcases Alike.eq_or_zero (.inr h) with heq | ⟨⟨hfinite, hzero⟩, -⟩
  · exact heq
  · have hunits : x.signedUnits = 0 := by simp [signedUnits_eq, hzero]
    refine absurd (isPercent_iff.2 ⟨hfinite, ?_, ?_⟩) hx
    · exact hunits.ge
    · exact hunits.le.trans (Int.mul_nonneg (by decide) (Int.natCast_nonneg unitsPerOne))

end Binary64

namespace Demand

theorem sameOutcome_checkPercent (field : RuleField) (h : (x == y) = true) :
    SameOutcome (fun a b => (a.1 == b.1) = true) (checkPercent field x) (checkPercent field y) := by
  unfold checkPercent
  by_cases hx : x.IsPercent
  · rw [dif_pos hx, dif_pos ((Binary64.isPercent_congr h).1 hx)]
    exact .ok h
  · rw [← Binary64.eq_of_beq_of_not_isPercent h hx, dif_neg hx]
    exact .error _

theorem sameOutcome_make (percentField roundingField : RuleField) (rounding : RoundingPolicy)
    (h : (x == y) = true) :
    SameOutcome (fun a b => (a == b) = true) (make percentField x roundingField rounding)
      (make percentField y roundingField rounding) := by
  refine (sameOutcome_checkPercent percentField h).bind fun a b hab => ?_
  refine (SameOutcome.refl (R := Eq) (fun _ => rfl) _).bind ?_
  rintro r _ rfl
  exact .ok (Bool.and_eq_true_iff.2 ⟨hab, beq_self_eq_true r.1⟩)

end Demand

namespace RuleDraft

/-- The drafts agree but for the signs of zeros. -/
structure SameNumbers (draft draft' : RuleDraft) : Prop where
  kind : draft.kind = draft'.kind
  assignmentType : draft.assignmentType = draft'.assignmentType
  requiredPercent : Option.Rel (fun x y => (x == y) = true) draft.requiredPercent
    draft'.requiredPercent
  averageRounding : draft.averageRounding = draft'.averageRounding
  passedPercent : Option.Rel (fun x y => (x == y) = true) draft.passedPercent draft'.passedPercent
  passedRounding : draft.passedRounding = draft'.passedRounding

theorem sameOutcome_present {α β : Type} {R : α → β → Prop} (field : RuleField) {a : Option α}
    {b : Option β} (h : Option.Rel R a b) : SameOutcome R (present field a) (present field b) := by
  cases h with
  | none => exact .error _
  | some hab => exact .ok hab

theorem SameNumbers.check {draft draft' : RuleDraft} (h : SameNumbers draft draft') :
    SameOutcome (fun a b => (a == b) = true) draft.check draft'.check := by
  obtain ⟨kind, type, required, rounding, share, shareRounding⟩ := draft
  obtain ⟨kind', type', required', rounding', share', shareRounding'⟩ := draft'
  obtain ⟨rfl, rfl, hrequired, rfl, hshare, rfl⟩ := h
  have hrefl {α : Type} (x : Except RuleError α) : SameOutcome Eq x x := .refl (fun _ => rfl) x
  unfold RuleDraft.check
  -- Up to the percentages both drafts are checked in the same way.
  refine (hrefl _).bind ?_
  rintro tag _ rfl
  refine (hrefl _).bind ?_
  rintro kind _ rfl
  refine (hrefl _).bind ?_
  rintro text _ rfl
  refine (hrefl _).bind ?_
  rintro type _ rfl
  refine (sameOutcome_present _ hrequired).bind fun x y hxy => ?_
  refine (hrefl _).bind ?_
  rintro policy _ rfl
  have haverage := Demand.sameOutcome_make .requiredPercent .averageRounding policy hxy
  cases kind with
  | overall =>
    exact haverage.bind fun _ _ hab => .ok (Bool.and_eq_true_iff.2 ⟨beq_self_eq_true type, hab⟩)
  | passedShare =>
    refine (sameOutcome_present _ hshare).bind fun z w hzw => ?_
    refine (hrefl _).bind ?_
    rintro sharePolicy _ rfl
    refine haverage.bind fun a b hab => ?_
    refine (Demand.sameOutcome_make .passedPercent .passedRounding sharePolicy hzw).bind ?_
    intro c d hcd
    have htype := Bool.and_eq_true_iff.2 ⟨beq_self_eq_true type, hab⟩
    exact .ok (Bool.and_eq_true_iff.2 ⟨htype, hcd⟩)

end RuleDraft

namespace CriteriaDraft

theorem sameOutcome_checkFrom {drafts drafts' : CriteriaDraft}
    (h : List.Forall₂ RuleDraft.SameNumbers drafts drafts') (index : Nat) :
    SameOutcome (fun rules rules' => (rules == rules') = true) (checkFrom index drafts)
      (checkFrom index drafts') := by
  induction h generalizing index with
  | nil => exact .ok rfl
  | cons hdraft _ ih =>
    rw [checkFrom, checkFrom]
    rcases hdraft.check.exists_eq with ⟨rule, rule', hrule, hrule', hsame⟩ | ⟨e, he, he'⟩
    · rw [hrule, hrule']
      refine (ih (index + 1)).map fun _ _ hrules => ?_
      exact Bool.and_eq_true_iff.2 ⟨hsame, hrules⟩
    · rw [he, he']
      exact .error _

/-- Drafts that differ in the signs of zeros make equal criteria, or have the same first faulty one
    with the same fault. -/
theorem sameOutcome_check {drafts drafts' : CriteriaDraft}
    (h : List.Forall₂ RuleDraft.SameNumbers drafts drafts') :
    SameOutcome (fun criteria criteria' => (criteria == criteria') = true) drafts.check
      drafts'.check :=
  (sameOutcome_checkFrom h 0).map fun _ _ => id

end CriteriaDraft

end CourseAdmission
