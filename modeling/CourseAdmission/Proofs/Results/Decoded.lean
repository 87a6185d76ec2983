import CourseAdmission.Proofs.Document.Whole
import CourseAdmission.Proofs.Document.Yields
import CourseAdmission.Proofs.Json.InRange
import CourseAdmission.Results.Document

/-!
Results that are read from JSON have finite percentages.
-/

namespace CourseAdmission

open Document Binary64

theorem hereditary_inRange : Hereditary Node.InRange where
  items := by
    rintro items ⟨⟩
    assumption
  members := by
    rintro members ⟨⟩
    assumption

theorem yields_double : Decoder.double.Yields Node.InRange fun x => x.isFinite = true := by
  rintro node x hnode hx
  cases hnode with
  | number n hn =>
    cases n with
    | integer z =>
      have hcount := isFinite_ofQuotient_iff.1 (ofNat_count_spec hn).1
      rw [← Except.ok.inj hx]
      exact isFinite_ofQuotient_iff.2 hcount
    | double y =>
      cases hx
      exact hn
    | outOfRange => cases hx
  | _ => cases hx

theorem AssignmentResult.yields_decoder :
    AssignmentResult.decoder.Yields Node.InRange fun r => r.percent.isFinite = true := by
  have hrecord := ((Record.yields_required Decoder.text.yields_true "assignmentId").map
      AssignmentResult.mk).seq
    (Record.yields_required AssignmentType.decoder.yields_true "assignmentType")
    |>.seq (Record.yields_required yields_double "achievedPercent")
    |>.seq (Record.yields_required Decoder.bool.yields_true "passed")
  refine (hrecord.decode hereditary_inRange .passedOver .refused).mono ?_
  rintro _ ⟨_, passed, ⟨_, percent, ⟨_, type, ⟨id, -, rfl⟩, -, rfl⟩, hpercent, rfl⟩, -, rfl⟩
  exact hpercent

theorem StudentResults.yields_decoder : StudentResults.decoder.Yields Node.InRange
    fun student => ∀ r ∈ student.results, r.percent.isFinite = true := by
  have hrecord := ((Record.yields_required Decoder.text.yields_true "studentId").map
      StudentResults.mk).seq
    (Record.yields_defaulted (Decoder.yields_list hereditary_inRange
      AssignmentResult.yields_decoder) (List.forall_mem_nil _) "results" [])
  refine (hrecord.decode hereditary_inRange .passedOver .refused).mono ?_
  rintro _ ⟨_, results, ⟨id, -, rfl⟩, hresults, rfl⟩
  exact hresults

theorem CourseResults.yields_decoder : CourseResults.decoder.Yields Node.InRange
    fun course => ∀ student ∈ course.students, ∀ r ∈ student.results,
      r.percent.isFinite = true := by
  have hrecord := ((Record.yields_required Decoder.text.yields_true "courseId").map
      CourseResults.mk).seq
    (Record.yields_defaulted (Decoder.yields_list hereditary_inRange
      StudentResults.yields_decoder) (List.forall_mem_nil _) "students" [])
  refine (hrecord.decode hereditary_inRange .passedOver .refused).mono ?_
  rintro _ ⟨_, students, ⟨id, -, rfl⟩, hstudents, rfl⟩
  exact hstudents

/-- Whatever results a JSON text holds, their percentages are finite. -/
theorem CourseResults.isFinite_percent_of_decode {text : String} {course : CourseResults}
    (hcourse : Json.decode CourseResults.decoder text = .ok course) :
    ∀ student ∈ course.students, ∀ r ∈ student.results, r.percent.isFinite = true :=
  CourseResults.yields_decoder _ _ (Json.inRange_read text) (Json.decode_eq_ok_iff.1 hcourse).1

end CourseAdmission
