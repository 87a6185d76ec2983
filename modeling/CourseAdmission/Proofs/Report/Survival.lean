import CourseAdmission.Proofs.Json.Double
import CourseAdmission.Proofs.Report.Document

/-!
Which reports come back from being saved and loaded: those all of whose doubles come back from their
texts.
-/

namespace CourseAdmission

open Document

namespace Binary64

variable {x y : Binary64}

/-- A finite double that its shortest digits give again when they are scaled by their power of
    ten. -/
def Survives (x : Binary64) : Prop := x.isFinite ∧ x.readBack = some x.abs

instance (x : Binary64) : Decidable x.Survives := inferInstanceAs (Decidable (_ ∧ _))

theorem signed_abs (hx : x.isFinite) : (if x.isNegative then -x.abs else x.abs) = x := by
  obtain ⟨negative, units, _, _, rfl⟩ := exists_eq_finite hx
  cases negative <;> rfl

theorem neg_injective : Function.Injective (fun x : Binary64 => -x) := by
  intro x y hxy
  cases x <;> cases y <;> simp_all [Neg.neg, neg]

/-- The text of a double is read as the scaled digits with the sign. -/
theorem rereadAs_iff : x.RereadAs y ↔
    x.isFinite ∧ ∃ m, x.readBack = some m ∧ (if x.isNegative then -m else m) = y := by
  rw [← Node.double_reread_iff, Node.ofDouble]
  by_cases hx : x.isFinite
  · rw [if_pos hx, Node.reread, reread_double hx]
    cases x.readBack with
    | none => simp [Decoder.double]
    | some m => simp [Decoder.double, hx]
  · rw [if_neg hx]
    constructor
    · rintro ⟨⟩
    · rintro ⟨hfinite, -⟩
      exact absurd hfinite hx

theorem rereadAs_self_iff : x.RereadAs x ↔ x.Survives := by
  rw [rereadAs_iff, Survives]
  refine and_congr_right fun hx => ?_
  constructor
  · rintro ⟨m, hm, hsame⟩
    have hsigned := hsame.trans (signed_abs hx).symm
    rw [hm]
    congr 1
    split at hsigned
    case isTrue => exact neg_injective hsigned
    case isFalse => exact hsigned
  · intro hback
    exact ⟨x.abs, hback, signed_abs hx⟩

end Binary64

/-- The numbers behind an outcome that are doubles. -/
def RuleDetails.doubles : RuleDetails → List Binary64
  | .overall d => [d.average, d.rounded, d.required]
  | .passedShare d =>
    [d.average, d.averageRounded, d.averageRequired, d.share, d.shareRounded, d.shareRequired]

def Verdict.doubles (verdict : Verdict) : List Binary64 :=
  verdict.results.flatMap (·.details.doubles)

def Criteria.thresholds (criteria : Criteria) : List Binary64 :=
  (criteria.rules.flatMap Rule.demands).map (·.required)

def Report.doubles (report : Report) : List Binary64 :=
  report.criteria.thresholds ++ report.students.flatMap (·.verdict.doubles)

theorem RuleDetails.rereadAs_self_iff {d : RuleDetails} :
    d.RereadAs d ↔ ∀ x ∈ d.doubles, x.Survives := by
  cases d with
  | overall d =>
    simp only [RereadAs, OverallDetails.rereadAs_iff, Binary64.rereadAs_self_iff, doubles,
      List.forall_mem_cons, true_and]
    simp
  | passedShare d =>
    simp only [RereadAs, PassedShareDetails.rereadAs_iff, Binary64.rereadAs_self_iff, doubles,
      List.forall_mem_cons, true_and]
    simp

theorem RuleResult.rereadAs_self_iff {result : RuleResult} :
    result.RereadAs result ↔ ∀ x ∈ result.details.doubles, x.Survives := by
  rw [← RuleDetails.rereadAs_self_iff]
  exact ⟨fun h => h.details, fun h => ⟨rfl, rfl, rfl, rfl, h, rfl⟩⟩

theorem Verdict.rereadAs_self_iff {verdict : Verdict} :
    verdict.RereadAs verdict ↔ ∀ x ∈ verdict.doubles, x.Survives := by
  have hresults : verdict.RereadAs verdict ↔
      List.Forall₂ RuleResult.RereadAs verdict.results verdict.results :=
    ⟨fun h => h.results, fun h => ⟨rfl, h⟩⟩
  simp only [hresults, List.forall₂_same, RuleResult.rereadAs_self_iff, doubles,
    List.forall_mem_flatMap]

theorem Rule.rereadAs_self_iff {rule : Rule} :
    rule.RereadAs rule ↔ ∀ demand ∈ rule.demands, demand.required.Survives := by
  cases rule <;> simp [RereadAs, Demand.RereadAs, Binary64.rereadAs_self_iff, demands]

theorem Criteria.rereadAs_self_iff {criteria : Criteria} :
    criteria.RereadAs criteria ↔ ∀ x ∈ criteria.thresholds, x.Survives := by
  simp only [RereadAs, List.forall₂_same, Rule.rereadAs_self_iff, thresholds, List.forall_mem_map,
    List.forall_mem_flatMap]

namespace Summary

variable {students ss : List StudentVerdict}

theorem countP_eq_of_forall₂ {α : Type} {R : α → α → Prop} {p : α → Bool} {l l' : List α}
    (h : List.Forall₂ R l l') (hsame : ∀ a b, R a b → p a = p b) : l.countP p = l'.countP p := by
  induction h with
  | nil => rfl
  | cons hab _ ih => rw [List.countP_cons, List.countP_cons, hsame _ _ hab, ih]

theorem countOutcome_reread (h : List.Forall₂ StudentVerdict.RereadAs students ss) (index : Nat)
    (passed : Bool) : countOutcome students index passed = countOutcome ss index passed := by
  have hresults : List.Forall₂ RuleResult.RereadAs (students.flatMap (·.verdict.results))
      (ss.flatMap (·.verdict.results)) :=
    List.rel_flatMap h fun _ _ hstudent => hstudent.verdict.results
  exact countP_eq_of_forall₂ hresults fun a b hresult => by rw [hresult.index, hresult.passed]

theorem hasWarnings_reread {verdict v : Verdict} (h : verdict.RereadAs v) :
    verdict.hasWarnings = v.hasWarnings := by
  have hresults := h.results
  unfold Verdict.hasWarnings
  generalize verdict.results = results, v.results = rs at hresults ⊢
  induction hresults with
  | nil => rfl
  | cons hresult _ ih =>
    rw [List.any_cons, List.any_cons, ih, RuleResult.hasWarnings, hresult.warnings]
    rfl

theorem tallies_reread (h : List.Forall₂ StudentVerdict.RereadAs students ss) {rules rs : List Rule}
    (hrules : List.Forall₂ Rule.RereadAs rules rs) (start : Nat) :
    (rules.zipIdx start).map (fun (rule, index) => tally students index rule) =
      (rs.zipIdx start).map fun (rule, index) => tally ss index rule := by
  induction hrules generalizing start with
  | nil => rfl
  | @cons rule r _ _ hrule _ ih =>
    have hkind : rule.kind = r.kind ∧ rule.type = r.type := by
      cases rule <;> cases r
      · exact ⟨rfl, hrule.1⟩
      · exact hrule.elim
      · exact hrule.elim
      · exact ⟨rfl, hrule.1⟩
    have htally : tally students start rule = tally ss start r := by
      simp only [tally, countOutcome_reread h, hkind]
    rw [List.zipIdx_cons, List.zipIdx_cons, List.map_cons, List.map_cons, ih]
    exact congrArg (· :: _) htally

/-- The doubles of criteria and verdicts do not count. -/
theorem ofVerdicts_reread {criteria c : Criteria} (hcriteria : criteria.RereadAs c)
    (hstudents : List.Forall₂ StudentVerdict.RereadAs students ss) :
    ofVerdicts criteria students = ofVerdicts c ss := by
  have hadmitted : students.countP (·.verdict.admitted) = ss.countP (·.verdict.admitted) :=
    countP_eq_of_forall₂ hstudents fun _ _ h => h.verdict.admitted
  have hwarnings : students.countP (·.verdict.hasWarnings) = ss.countP (·.verdict.hasWarnings) :=
    countP_eq_of_forall₂ hstudents fun _ _ h => hasWarnings_reread h.verdict
  rw [ofVerdicts, ofVerdicts, hstudents.length_eq, hadmitted, hwarnings,
    tallies_reread hstudents hcriteria 0]

end Summary

namespace Report

variable {report r : Report}

theorem rereadAs_self_iff : report.RereadAs report ↔ ∀ x ∈ report.doubles, x.Survives := by
  rw [doubles, List.forall_mem_append, ← Criteria.rereadAs_self_iff]
  constructor
  · intro h
    refine ⟨h.criteria, List.forall_mem_flatMap.2 fun student hstudent => ?_⟩
    exact Verdict.rereadAs_self_iff.1 (List.forall₂_same.1 h.students student hstudent).verdict
  · rintro ⟨hcriteria, hstudents⟩
    refine ⟨rfl, rfl, rfl, hcriteria, List.forall₂_same.2 fun student hstudent => ?_, rfl, rfl⟩
    exact ⟨rfl, Verdict.rereadAs_self_iff.2 (List.forall_mem_flatMap.1 hstudents student hstudent)⟩

/-- A saved report is loaded as it was if and only if all of its doubles survive. Whatever else is
    loaded differs from it in doubles alone, and still agrees with its summary. -/
theorem load_save_eq_iff (hfits : report.Fits) :
    (load report.save = .ok report ↔ ∀ x ∈ report.doubles, x.Survives) ∧
      ∀ r, load report.save = .ok r → report.RereadAs r ∧
        (Summary.ofVerdicts report.criteria report.students = report.summary →
          Summary.ofVerdicts r.criteria r.students = r.summary) := by
  refine ⟨(load_save_iff hfits).trans rereadAs_self_iff, fun r hload => ?_⟩
  have hreread := (load_save_iff hfits).1 hload
  refine ⟨hreread, fun hsummary => ?_⟩
  rw [← Summary.ofVerdicts_reread hreread.criteria hreread.students, hsummary, hreread.summary]

/-- The report on a student with these grades in tenths, of whom `50` percent are demanded. -/
def onGrades (grades : List Nat) : Report :=
  let criteria : Criteria := ⟨[.overall .homework ⟨50, .up, by decide +kernel, trivial⟩]⟩
  let createdAt : Instant := ⟨⟨1970, 1, 1⟩, 0, 0, 0, 0, by decide, by decide⟩
  let results := grades.map fun k => ⟨"", .homework, .ofDecimal false k (-1), true⟩
  criteria.evaluateCourse ⟨.nil, createdAt, 0⟩ ⟨"", [⟨"", results⟩]⟩

theorem load_save_onGrades :
    load (onGrades [583, 701, 816]).save = .ok (onGrades [583, 701, 816]) :=
  (load_save_eq_iff (by decide +kernel)).1.2 (by decide +kernel)

-- The average `3.6333333333333333` is read as `3.6333333333333337`.
example : ¬∀ x ∈ (onGrades [36, 36, 37]).doubles, x.Survives := by decide +kernel

end Report

end CourseAdmission
