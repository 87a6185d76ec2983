import CourseAdmission.Proofs.Binary64.Order
import CourseAdmission.Proofs.Criteria.Demand
import CourseAdmission.Proofs.Criteria.Repeated
import CourseAdmission.Proofs.Verdict.Evaluate

/-!
Repeated rules do not matter to the decision.

Rules that are equal pass on the same results, although the thresholds of equal rules may be zeros
of different signs. A repeated rule equals an earlier one, so the rules that are left when all
repeated ones are taken out decide on their own.
-/

namespace CourseAdmission

open Binary64

/-- Equal demands accept the same percentages. -/
theorem Demand.holds_eq_of_beq {a b : Demand} (hsame : (a == b) = true) (x : Binary64) :
    a.holds x = b.holds x := by
  obtain ⟨hrequired, hrounding⟩ := Bool.and_eq_true_iff.1 hsame
  obtain ⟨hle, hge⟩ := beq_iff_le_le.1 hrequired
  rw [holds, holds, rounded, rounded, eq_of_beq hrounding, decide_eq_decide]
  exact ⟨Binary64.le_trans hge, Binary64.le_trans hle⟩

/-- Equal rules look at the same type and pass on the same aggregates. -/
theorem Rule.passed_eq_of_beq {rule rule' : Rule} (hsame : (rule == rule') = true) :
    rule.type = rule'.type ∧
      ∀ aggregate, (rule.outcome aggregate).passed = (rule'.outcome aggregate).passed := by
  cases rule with
  | overall type average =>
    cases rule' with
    | overall type' average' =>
      obtain ⟨htype, haverage⟩ := Bool.and_eq_true_iff.1 hsame
      exact ⟨eq_of_beq htype, fun aggregate => Demand.holds_eq_of_beq haverage _⟩
    | passedShare => cases hsame
  | passedShare type average share =>
    cases rule' with
    | overall => cases hsame
    | passedShare type' average' share' =>
      obtain ⟨hsame, hshare⟩ := Bool.and_eq_true_iff.1 hsame
      obtain ⟨htype, haverage⟩ := Bool.and_eq_true_iff.1 hsame
      refine ⟨eq_of_beq htype, fun aggregate => ?_⟩
      exact congrArg₂ Bool.and (Demand.holds_eq_of_beq haverage _) (Demand.holds_eq_of_beq hshare _)

namespace Criteria

variable {criteria : Criteria} {dropped : List Nat}

/-- The criteria without the rules at some places. -/
def without (criteria : Criteria) (dropped : List Nat) : Criteria :=
  ⟨(criteria.indexed.filter fun entry => !dropped.contains entry.2).map Prod.fst⟩

theorem mem_rules_without_iff {rule : Rule} : rule ∈ (criteria.without dropped).rules ↔
    ∃ place, criteria.rules[place]? = some rule ∧ place ∉ dropped := by
  simp [without, indexed, List.mk_mem_zipIdx_iff_getElem?]

/-- Without the rules that are warned about as duplicates the decision is the same. From each of
    them the warnings lead back to earlier rules, and so to one that is left. -/
theorem admitted_without
    (hdropped : ∀ place, place ∈ dropped ↔ ∃ first, criteria.Flags place (duplicateText first))
    (results : List AssignmentResult) :
    ((criteria.without dropped).evaluate results).admitted =
      (criteria.evaluate results).admitted := by
  rw [Bool.eq_iff_iff, admitted_evaluate_iff, admitted_evaluate_iff]
  constructor
  · intro hleft rule hrule
    obtain ⟨place, hplace⟩ := List.mem_iff_getElem?.1 hrule
    clear hrule
    induction place using Nat.strongRecOn generalizing rule with
    | ind place ih =>
      by_cases hflag : place ∈ dropped
      · obtain ⟨first, hflag⟩ := (hdropped place).1 hflag
        rw [flags_duplicateText_iff, mem_duplicates_iff] at hflag
        obtain ⟨hlt, ⟨earlier, rule', hearlier, hrule', hsame⟩, -⟩ := hflag
        obtain rfl := Option.some.inj (hplace.symm.trans hrule')
        obtain ⟨htype, hpassed⟩ := Rule.passed_eq_of_beq hsame
        rw [← htype, ← hpassed]
        exact ih first hlt earlier hearlier
      · exact hleft rule (mem_rules_without_iff.2 ⟨place, hplace, hflag⟩)
  · intro hall rule hrule
    obtain ⟨place, hplace, -⟩ := mem_rules_without_iff.1 hrule
    exact hall rule (List.mem_of_getElem? hplace)

/-- A rule is said to duplicate another one exactly if that is the first rule that equals it and
    comes earlier, and these warnings stand in the order of the rules. After all warnings on rules
    there is one for each type with several overall rules, in the order in which the types are
    declared, with the places of its overall rules in increasing order; these are also the warnings
    that a map of the places leads to, in whatever order its entries are gone through. Without the
    duplicates the decision on every student is the same. -/
theorem lint_repeated (criteria : Criteria) :
    (∀ place first, criteria.Flags place (duplicateText first) ↔
        first < place ∧ criteria.SameAt first place ∧
          ∀ earlier < first, ¬criteria.SameAt earlier place) ∧
      (criteria.lint.Pairwise fun before after => ∀ place first place' first',
        before = ⟨some place, duplicateText first⟩ →
          after = ⟨some place', duplicateText first'⟩ → place < place') ∧
      (∃ onRules, (∀ warning ∈ onRules, warning.rule ≠ none) ∧
        criteria.lint = onRules ++
          (AssignmentType.all.filter fun type => 1 < (criteria.overallPlaces type).length).map
            (fun type => repeatedWarning (type, criteria.overallPlaces type)) ∧
        ∀ entries, criteria.overallByType.Lists entries →
          criteria.lint = onRules ++ (sortedRepeated entries).map repeatedWarning) ∧
      (∀ type, (criteria.overallPlaces type).Pairwise (· < ·) ∧
        ∀ place, place ∈ criteria.overallPlaces type ↔
          ∃ average, criteria.rules[place]? = some (.overall type average)) ∧
      ∀ dropped : List Nat,
        (∀ place, place ∈ dropped ↔ ∃ first, criteria.Flags place (duplicateText first)) →
          ∀ results, ((criteria.without dropped).evaluate results).admitted =
            (criteria.evaluate results).admitted := by
  refine ⟨fun place first => flags_duplicateText_iff.trans mem_duplicates_iff,
    criteria.pairwise_lint, ?_,
    fun type => ⟨criteria.pairwise_overallPlaces type, fun place => mem_overallPlaces_iff⟩,
    fun dropped hdropped results => admitted_without hdropped results⟩
  obtain ⟨onRules, hrules, hlint⟩ := criteria.exists_lint_eq
  refine ⟨onRules, hrules, ?_, fun entries hentries => ?_⟩
  · rw [hlint, repeatedTypes_eq, List.map_map]
    rfl
  · rw [hlint, sortedRepeated_eq hentries]

end Criteria

/-- Half of both exercises, asked for twice, the second time with the homework rounded up. -/
def halfTwice : Criteria :=
  ⟨[.overall .testat ⟨50, .none, isPercent_fifty, trivial⟩,
    .overall .homework ⟨50, .none, isPercent_fifty, trivial⟩,
    .overall .testat ⟨50, .none, isPercent_fifty, trivial⟩,
    .overall .homework ⟨50, .up, isPercent_fifty, trivial⟩]⟩

theorem lists_halfTwice :
    halfTwice.overallByType.Lists [(.testat, [0, 2]), (.homework, [1, 3])] := by
  refine ⟨by decide, fun type places => ?_⟩
  cases type with
  | homework => simp [show halfTwice.overallByType .homework = some [1, 3] from rfl, eq_comm]
  | testat => simp [show halfTwice.overallByType .testat = some [0, 2] from rfl, eq_comm]
  | seminar => simp [show halfTwice.overallByType .seminar = none from rfl]
  | project => simp [show halfTwice.overallByType .project = none from rfl]
  | other => simp [show halfTwice.overallByType .other = none from rfl]

/-- Only the third rule is a duplicate, but both types have two overall rules. -/
theorem lint_repeated_halfTwice :
    halfTwice.Flags 2 (duplicateText 0) ∧
      (∃ onRules, halfTwice.lint = onRules ++
        (sortedRepeated [(.testat, [0, 2]), (.homework, [1, 3])]).map repeatedWarning) ∧
      ∀ results, ((halfTwice.without [2]).evaluate results).admitted =
        (halfTwice.evaluate results).admitted := by
  obtain ⟨-, -, ⟨onRules, -, -, hlint⟩, -, hwithout⟩ := halfTwice.lint_repeated
  have hduplicates : halfTwice.duplicates = [(2, 0)] := by decide +kernel
  have hflag (place first : Nat) :
      halfTwice.Flags place (duplicateText first) ↔ place = 2 ∧ first = 0 := by
    rw [Criteria.flags_duplicateText_iff, hduplicates, List.mem_singleton, Prod.mk.injEq]
  refine ⟨(hflag 2 0).2 ⟨rfl, rfl⟩, ⟨onRules, hlint _ lists_halfTwice⟩, hwithout [2] ?_⟩
  simp [hflag]

end CourseAdmission
