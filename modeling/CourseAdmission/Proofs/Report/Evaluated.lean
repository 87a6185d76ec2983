import CourseAdmission.Proofs.Report.Counts
import CourseAdmission.Proofs.Report.Loading
import CourseAdmission.Proofs.Results.Decoded
import CourseAdmission.Proofs.Results.Growth
import CourseAdmission.Proofs.RoundingPolicy

/-!
The report on a course whose results come from JSON: which of its doubles are finite, and whether it
can be loaded when it is saved.

Scaling and rounding keep finite numbers finite, and so does dividing by a count. Only the sum of
the percentages of a type may leave the finite numbers.
-/

namespace CourseAdmission

open Document Binary64 ExactSum

/-- The percentages of a type have a finite sum. -/
def FiniteSum (results : List AssignmentResult) (type : AssignmentType) : Prop :=
  (ofList ((TypeAggregate.matching results type).map (·.percent))).total.isFinite

instance (results : List AssignmentResult) (type : AssignmentType) :
    Decidable (FiniteSum results type) := inferInstanceAs (Decidable (_ = _))

/-- The mean is finite as the sum is, as long as the numbers can be counted. -/
theorem TypeAggregate.isFinite_mean_iff {percents : List Binary64}
    (hlength : percents.length < Word.limit 64) :
    (mean percents).isFinite = true ↔ (ofList percents).total.isFinite = true := by
  rw [mean]
  split
  case isTrue hempty =>
    rw [List.isEmpty_iff] at hempty
    have htotal : (ofList percents).total.isFinite = true := by
      rw [hempty]
      decide +kernel
    exact iff_of_true isFinite_zero htotal
  case isFalse hne =>
    have hpos : 0 < percents.length := List.length_pos_iff.2 (by simpa using hne)
    obtain ⟨hcount, hone⟩ := one_le_count hpos hlength
    have hzero := unitsPerOne_pos
    have hkeeps := keepsSign_div hcount (by omega)
    exact ⟨hkeeps.isFinite_of_isFinite, fun htotal => isFinite_div htotal hcount hone⟩

/-- What a rule says about an aggregate is finite as its average is. -/
theorem Rule.isFinite_doubles_iff (rule : Rule) {aggregate : TypeAggregate}
    (hshare : aggregate.passedPercent.isFinite = true) :
    (∀ x ∈ (rule.outcome aggregate).details.doubles, x.isFinite = true) ↔
      aggregate.average.isFinite = true := by
  cases rule with
  | overall type average =>
    constructor
    · intro hall
      exact hall _ (by simp [outcome, RuleDetails.doubles])
    · intro haverage
      have hrounded := RoundingPolicy.isFinite_apply average.rounding haverage
      have hrequired := average.isPercent.isFinite
      simpa [outcome, RuleDetails.doubles, Demand.rounded] using
        ⟨haverage, hrounded, hrequired⟩
  | passedShare type average share =>
    constructor
    · intro hall
      exact hall _ (by simp [outcome, RuleDetails.doubles])
    · intro haverage
      have hrounded := RoundingPolicy.isFinite_apply average.rounding haverage
      have hrequired := average.isPercent.isFinite
      have hshareRounded := RoundingPolicy.isFinite_apply share.rounding hshare
      have hshareRequired := share.isPercent.isFinite
      simpa [outcome, RuleDetails.doubles, Demand.rounded] using
        ⟨haverage, hrounded, hrequired, hshare, hshareRounded, hshareRequired⟩

section

variable {criteria : Criteria} {results : List AssignmentResult}

theorem Criteria.isFinite_doubles_evaluate_iff (hlength : results.length < Word.limit 64) :
    (∀ x ∈ (criteria.evaluate results).doubles, x.isFinite = true) ↔
      ∀ rule ∈ criteria.rules, FiniteSum results rule.type := by
  have hrule (rule : Rule) :
      (∀ x ∈ (rule.outcome (TypeAggregate.ofResults results rule.type)).details.doubles,
        x.isFinite = true) ↔ FiniteSum results rule.type := by
    have hown := length_matching_lt hlength rule.type
    rw [rule.isFinite_doubles_iff (isFinite_percentOf List.countP_le_length hown)]
    exact TypeAggregate.isFinite_mean_iff (by rwa [List.length_map])
  rw [Verdict.doubles, List.forall_mem_flatMap]
  exact forall_mem_results_evaluate fun rule _ => hrule rule

end

/-- The sizes of a course and its criteria can be counted. -/
structure Countable (criteria : Criteria) (stamp : Report.Stamp) (course : CourseResults) :
    Prop where
  students : course.students.length < Word.limit 64
  results : ∀ student ∈ course.students, student.results.length < Word.limit 64
  rules : criteria.rules.length < Word.limit 64
  duration : stamp.duration < Word.limit 64

section

variable {criteria : Criteria} {stamp : Report.Stamp} {course : CourseResults}

theorem Countable.fits_result (h : Countable criteria stamp course) {student : StudentResults}
    (hstudent : student ∈ course.students) :
    ∀ result ∈ (criteria.evaluate student.results).results, result.Fits := by
  intro result hresult
  obtain ⟨place, rule, hplace, rfl⟩ := Criteria.mem_results_evaluate_iff.1 hresult
  have hcount := length_matching_lt (h.results student hstudent) rule.type
  have hpassed := (List.countP_le_length (p := (·.passed))).trans_lt hcount
  obtain ⟨hindex, -⟩ := List.getElem?_eq_some_iff.1 hplace
  refine ⟨hindex.trans h.rules, ?_⟩
  cases rule with
  | overall type average => exact ⟨hcount, average.allowed.fits⟩
  | passedShare type average share =>
    exact ⟨hcount, hpassed, average.allowed.fits, share.allowed.fits⟩

theorem Countable.fits (h : Countable criteria stamp course) :
    (criteria.evaluateCourse stamp course).Fits := by
  have hlength : (course.students.map criteria.evaluateStudent).length < Word.limit 64 := by
    rw [List.length_map]
    exact h.students
  have hcount (p : StudentVerdict → Bool) :
      (course.students.map criteria.evaluateStudent).countP p < Word.limit 64 :=
    List.countP_le_length.trans_lt hlength
  refine ⟨?_, ⟨hlength, hcount _, (Nat.sub_le _ _).trans_lt hlength, hcount _, ?_⟩, h.duration⟩
  · intro verdict hverdict
    obtain ⟨student, hstudent, rfl⟩ := List.mem_map.1 hverdict
    exact h.fits_result hstudent
  · intro tally htally
    obtain ⟨⟨rule, index⟩, hentry, rfl⟩ := List.mem_map.1 htally
    have hplace := List.mem_zipIdx_iff_getElem?.1 hentry
    have hindex := (List.getElem?_eq_some_iff.1 hplace).1
    have htallied (passed : Bool) : Summary.countOutcome
        (course.students.map criteria.evaluateStudent) index passed < Word.limit 64 := by
      rw [Criteria.countOutcome_evaluate _ hplace]
      exact List.countP_le_length.trans_lt h.students
    exact ⟨hindex.trans h.rules, htallied true, htallied false⟩

theorem Criteria.isFinite_doubles_evaluateCourse_iff (criteria : Criteria) (stamp : Report.Stamp)
    (hresults : ∀ student ∈ course.students, student.results.length < Word.limit 64) :
    (∀ x ∈ (criteria.evaluateCourse stamp course).doubles, x.isFinite = true) ↔
      ∀ student ∈ course.students, ∀ rule ∈ criteria.rules,
        FiniteSum student.results rule.type := by
  have hthresholds : ∀ x ∈ criteria.thresholds, x.isFinite = true := by
    intro x hx
    obtain ⟨demand, -, rfl⟩ := List.mem_map.1 hx
    exact demand.isPercent.isFinite
  have hcriteria : (criteria.evaluateCourse stamp course).criteria = criteria := rfl
  have hstudents : (criteria.evaluateCourse stamp course).students =
      course.students.map criteria.evaluateStudent := rfl
  rw [Report.doubles, hcriteria, hstudents, List.forall_mem_append, and_iff_right hthresholds,
    List.forall_mem_flatMap, List.forall_mem_map]
  exact forall₂_congr fun student hstudent =>
    criteria.isFinite_doubles_evaluate_iff (hresults student hstudent)

/-- Percentages have a finite sum if their absolute values sum up to less than `2 ^ 1023`. -/
theorem finiteSum_of_room {results : List AssignmentResult}
    (hfinite : ∀ r ∈ results, r.percent.isFinite = true)
    (hroom : 2 * absoluteSum results < unitLimit) (type : AssignmentType) :
    FiniteSum results type := by
  have hown : ∀ r ∈ TypeAggregate.matching results type, r.percent.isFinite = true :=
    fun r hr => hfinite r (List.mem_of_mem_filter hr)
  have hle := absoluteSum_matching_le results type
  rw [absoluteSum_eq hown] at hle
  exact ((holds_ofList (by simpa using hown) (by omega)).total (by omega)).1

/-- Let the results of a course be read from a JSON text, so that all percentages are finite. The
    report on the course has finite doubles only, and can be loaded when it is saved, exactly if
    for every student the percentages of each type that a rule looks at have a finite sum. So it is
    if the absolute values of each student's percentages sum up to less than `2 ^ 1023`. -/
theorem Criteria.load_save_evaluateCourse_iff {text : String}
    (hcourse : Json.decode CourseResults.decoder text = .ok course)
    (hcountable : Countable criteria stamp course) :
    (∀ student ∈ course.students, ∀ r ∈ student.results, r.percent.isFinite = true) ∧
      ((∀ x ∈ (criteria.evaluateCourse stamp course).doubles, x.isFinite = true) ↔
        ∀ student ∈ course.students, ∀ rule ∈ criteria.rules,
          FiniteSum student.results rule.type) ∧
      ((∃ report, Report.load (criteria.evaluateCourse stamp course).save = .ok report) ↔
        ∀ student ∈ course.students, ∀ rule ∈ criteria.rules,
          FiniteSum student.results rule.type) ∧
      ((∀ student ∈ course.students, 2 * absoluteSum student.results < unitLimit) →
        (∀ x ∈ (criteria.evaluateCourse stamp course).doubles, x.isFinite = true) ∧
          ∃ report, Report.load (criteria.evaluateCourse stamp course).save = .ok report) := by
  have hfinite := CourseResults.isFinite_percent_of_decode hcourse
  have hdoubles := criteria.isFinite_doubles_evaluateCourse_iff stamp hcountable.results
  have hload := (Report.exists_load_save_iff hcountable.fits).trans hdoubles
  refine ⟨hfinite, hdoubles, hload, fun hroom => ?_⟩
  have hsums : ∀ student ∈ course.students, ∀ rule ∈ criteria.rules,
      FiniteSum student.results rule.type := fun student hstudent rule _ =>
    finiteSum_of_room (hfinite student hstudent) (hroom student hstudent) rule.type
  exact ⟨hdoubles.2 hsums, hload.2 hsums⟩

end

/-- A course with one student, who has homework results of these percentages; its records are
    written as arrays of their fields. -/
def homeworkText (percents : List String) : String :=
  let results := percents.map fun percent => "[\"\",\"HOMEWORK\"," ++ percent ++ ",true]"
  "[\"\",[[\"\",[" ++ ",".intercalate results ++ "]]]]"

def homeworkCourse (percents : List Binary64) : CourseResults :=
  ⟨"", [⟨"", percents.map fun percent => ⟨"", .homework, percent, true⟩⟩]⟩

/-- Twice `81.6` has a finite sum. `1.5e308` twice and `-1.5e308` have none, though they add up to
    `1.5e308`, so that report is saved but not loaded. -/
theorem load_save_evaluateCourse_homework :
    let criteria : Criteria := ⟨[.overall .homework ⟨1, .none, by decide +kernel, trivial⟩]⟩
    let stamp : Report.Stamp := ⟨.nil, ⟨⟨1970, 1, 1⟩, 0, 0, 0, 0, by decide, by decide⟩, 0⟩
    let reportOn (percents : List Binary64) :=
      criteria.evaluateCourse stamp (homeworkCourse percents)
    let grade : Binary64 := .ofDecimal false 816 (-1)
    let great : Binary64 := .ofDecimal false 15 307
    (∃ report, Report.load (reportOn [grade, grade]).save = .ok report) ∧
      ¬∃ report, Report.load (reportOn [great, great, -great]).save = .ok report := by
  intro criteria stamp reportOn grade great
  have hread : Json.decode CourseResults.decoder (homeworkText ["81.6", "81.6"]) =
      .ok (homeworkCourse [grade, grade]) := by decide +kernel
  have hreadGreat : Json.decode CourseResults.decoder
      (homeworkText ["1.5e308", "1.5e308", "-1.5e308"]) =
        .ok (homeworkCourse [great, great, -great]) := by decide +kernel
  constructor
  · exact (criteria.load_save_evaluateCourse_iff hread
      ⟨by decide, by decide, by decide, by decide⟩).2.2.1.2 (by decide +kernel)
  · exact mt (criteria.load_save_evaluateCourse_iff hreadGreat
      ⟨by decide, by decide, by decide, by decide⟩).2.2.1.1 (by decide +kernel)

end CourseAdmission
