import CourseAdmission.Proofs.Json.ReadBack
import CourseAdmission.Proofs.Report.Survival

/-!
Which saved reports can be loaded at all, be it with other doubles: those without infinities and
undefined numbers, which have no text of their own.
-/

namespace CourseAdmission

open Document

theorem exists_forall₂_iff {α β : Type} {R : α → β → Prop} {as : List α} :
    (∃ bs, List.Forall₂ R as bs) ↔ ∀ a ∈ as, ∃ b, R a b := by
  induction as with
  | nil => simp
  | cons a as ih =>
    rw [List.forall_mem_cons, ← ih]
    constructor
    · rintro ⟨_, _ | ⟨hab, hrest⟩⟩
      exact ⟨⟨_, hab⟩, _, hrest⟩
    · rintro ⟨⟨b, hb⟩, bs, hbs⟩
      exact ⟨b :: bs, .cons hb hbs⟩

namespace Binary64

variable {x : Binary64}

/-- Exactly the finite numbers have texts that are read as numbers. -/
theorem exists_rereadAs_iff : (∃ y, x.RereadAs y) ↔ x.isFinite = true := by
  simp only [rereadAs_iff]
  constructor
  · rintro ⟨y, hx, -⟩
    exact hx
  · intro hx
    obtain ⟨m, hm⟩ := exists_readBack x
    exact ⟨_, hx, m, hm, rfl⟩

/-- The text of a percentage is read as a percentage. -/
theorem IsPercent.exists_rereadAs (hx : x.IsPercent) : ∃ y, x.RereadAs y ∧ y.IsPercent := by
  obtain ⟨hfinite, hlow, hhigh⟩ := isPercent_iff.1 hx
  have hunits := natAbs_signedUnits x
  obtain ⟨m, hm, hpercent⟩ := readBack_of_le_hundred (show x.units ≤ 100 * unitsPerOne by omega)
  by_cases hsign : x.isNegative = true
  · -- the only percentage with a sign is the negative zero
    have hzero : x.units = 0 := by
      rw [signedUnits_eq, if_pos hsign] at hlow
      omega
    have hback : x.readBack = some 0 := by
      unfold readBack
      rw [hzero]
      decide +kernel
    refine ⟨-0, rereadAs_iff.2 ⟨hfinite, 0, hback, ?_⟩, by decide +kernel⟩
    rw [if_pos hsign]
  · refine ⟨m, rereadAs_iff.2 ⟨hfinite, m, hm, ?_⟩, hpercent⟩
    rw [if_neg hsign]

end Binary64

/-- All criteria have texts that are read as criteria. -/
theorem Demand.exists_rereadAs (demand : Demand) : ∃ e, demand.RereadAs e := by
  obtain ⟨required, hrequired, hpercent⟩ := demand.isPercent.exists_rereadAs
  exact ⟨⟨required, demand.rounding, hpercent, demand.allowed⟩, hrequired, rfl⟩

theorem Rule.exists_rereadAs (rule : Rule) : ∃ r, rule.RereadAs r := by
  cases rule with
  | overall type average =>
    obtain ⟨e, he⟩ := average.exists_rereadAs
    exact ⟨.overall type e, rfl, he⟩
  | passedShare type average share =>
    obtain ⟨e, he⟩ := average.exists_rereadAs
    obtain ⟨t, ht⟩ := share.exists_rereadAs
    exact ⟨.passedShare type e t, rfl, he, ht⟩

theorem Criteria.exists_rereadAs (criteria : Criteria) : ∃ c, criteria.RereadAs c := by
  obtain ⟨rules, hrules⟩ := exists_forall₂_iff.2 fun rule (_ : rule ∈ criteria.rules) =>
    rule.exists_rereadAs
  exact ⟨⟨rules⟩, hrules⟩

theorem RuleDetails.exists_rereadAs_iff {d : RuleDetails} :
    (∃ e, d.RereadAs e) ↔ ∀ x ∈ d.doubles, x.isFinite = true := by
  simp only [← Binary64.exists_rereadAs_iff]
  cases d with
  | overall d =>
    simp only [doubles, List.forall_mem_cons]
    constructor
    · rintro ⟨e | e, h⟩
      · exact ⟨⟨_, h.average⟩, ⟨_, h.rounded⟩, ⟨_, h.required⟩, by simp⟩
      · exact h.elim
    · rintro ⟨⟨average, haverage⟩, ⟨rounded, hrounded⟩, ⟨required, hrequired⟩, -⟩
      exact ⟨.overall ⟨d.count, average, d.rounding, rounded, required⟩, rfl, haverage, rfl,
        hrounded, hrequired⟩
  | passedShare d =>
    simp only [doubles, List.forall_mem_cons]
    constructor
    · rintro ⟨e | e, h⟩
      · exact h.elim
      · exact ⟨⟨_, h.average⟩, ⟨_, h.averageRounded⟩, ⟨_, h.averageRequired⟩, ⟨_, h.share⟩,
          ⟨_, h.shareRounded⟩, ⟨_, h.shareRequired⟩, by simp⟩
    · rintro ⟨⟨average, haverage⟩, ⟨averageRounded, haverageRounded⟩,
        ⟨averageRequired, haverageRequired⟩, ⟨share, hshare⟩, ⟨shareRounded, hshareRounded⟩,
        ⟨shareRequired, hshareRequired⟩, -⟩
      let read : PassedShareDetails :=
        { d with average, averageRounded, averageRequired, share, shareRounded, shareRequired }
      exact ⟨.passedShare read, rfl, rfl, haverage, rfl, haverageRounded, haverageRequired, rfl,
        hshare, rfl, hshareRounded, hshareRequired, rfl⟩

theorem RuleResult.exists_rereadAs_iff {result : RuleResult} :
    (∃ r, result.RereadAs r) ↔ ∀ x ∈ result.details.doubles, x.isFinite = true := by
  rw [← RuleDetails.exists_rereadAs_iff]
  constructor
  · rintro ⟨r, h⟩
    exact ⟨_, h.details⟩
  · rintro ⟨details, hdetails⟩
    exact ⟨{ result with details }, rfl, rfl, rfl, rfl, hdetails, rfl⟩

theorem StudentVerdict.exists_rereadAs_iff {student : StudentVerdict} :
    (∃ s, student.RereadAs s) ↔ ∀ x ∈ student.verdict.doubles, x.isFinite = true := by
  rw [Verdict.doubles, List.forall_mem_flatMap]
  simp only [← RuleResult.exists_rereadAs_iff]
  rw [← exists_forall₂_iff]
  constructor
  · rintro ⟨s, h⟩
    exact ⟨_, h.verdict.results⟩
  · rintro ⟨results, hresults⟩
    exact ⟨⟨student.id, student.verdict.admitted, results⟩, rfl, rfl, hresults⟩

/-- A saved report can be loaded if and only if all of its doubles are finite. -/
theorem Report.exists_load_save_iff {report : Report} (hfits : report.Fits) :
    (∃ r, load report.save = .ok r) ↔ ∀ x ∈ report.doubles, x.isFinite = true := by
  have hthresholds : ∀ x ∈ report.criteria.thresholds, x.isFinite = true := by
    intro x hx
    obtain ⟨demand, -, rfl⟩ := List.mem_map.1 hx
    exact demand.isPercent.isFinite
  rw [doubles, List.forall_mem_append, and_iff_right hthresholds, List.forall_mem_flatMap]
  simp only [load_save_iff hfits, ← StudentVerdict.exists_rereadAs_iff]
  rw [← exists_forall₂_iff]
  constructor
  · rintro ⟨r, h⟩
    exact ⟨_, h.students⟩
  · rintro ⟨students, hstudents⟩
    obtain ⟨criteria, hcriteria⟩ := report.criteria.exists_rereadAs
    exact ⟨{ report with criteria, students }, rfl, rfl, rfl, hcriteria, hstudents, rfl, rfl⟩

end CourseAdmission
