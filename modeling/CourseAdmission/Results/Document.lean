import CourseAdmission.Document.Whole
import CourseAdmission.Verdict.Document

/-!
Results in documents.
-/

namespace CourseAdmission

open Document

namespace AssignmentResult

def record : Record AssignmentResult :=
  AssignmentResult.mk
    <$> .required "assignmentId" Decoder.text
    <*> .required "assignmentType" AssignmentType.decoder
    <*> .required "achievedPercent" Decoder.double
    <*> .required "passed" Decoder.bool

def decoder : Decoder AssignmentResult := record.lenient

end AssignmentResult

namespace StudentResults

def record : Record StudentResults :=
  StudentResults.mk
    <$> .required "studentId" Decoder.text
    <*> .defaulted "results" [] [] (Decoder.list AssignmentResult.decoder)

def decoder : Decoder StudentResults := record.lenient

end StudentResults

namespace CourseResults

def record : Record CourseResults :=
  CourseResults.mk
    <$> .required "courseId" Decoder.text
    <*> .defaulted "students" [] [] (Decoder.list StudentResults.decoder)

def decoder : Decoder CourseResults := record.lenient

end CourseResults

end CourseAdmission
