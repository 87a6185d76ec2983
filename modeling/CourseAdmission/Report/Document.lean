import CourseAdmission.Criteria.Document
import CourseAdmission.Report.Change
import CourseAdmission.Verdict.Document

/-!
Reports in documents.
-/

namespace CourseAdmission

open Document

namespace Uuid

def toNode (id : Uuid) : Node := .ofText id.toText

def decoder : Decoder Uuid := fun node => do
  match ofText? (← Decoder.text node) with
  | some id => return id
  | none => throw .unreadable

end Uuid

namespace Instant

def toNode (t : Instant) : Node := .ofText (t.toText "Z")

def decoder : Decoder Instant := fun node => do
  match ofText? (← Decoder.text node) with
  | some t => return t
  | none => throw .unreadable

end Instant

namespace StudentVerdict

def toNode (student : StudentVerdict) : Node :=
  .ofMembers [("studentId", .ofText student.id), ("verdict", student.verdict.toNode)]

def record (room : Nat) : Record StudentVerdict :=
  StudentVerdict.mk
    <$> .required "studentId" Decoder.text
    <*> .required "verdict" (Verdict.decoder (room - 1))

def decoder (room : Nat) : Decoder StudentVerdict := (record room).lenient

end StudentVerdict

namespace RuleTally

def toNode (tally : RuleTally) : Node :=
  .ofMembers [
    ("ruleIndex", .ofNat tally.index),
    ("rule", tally.kind.toNode),
    ("assignmentType", tally.type.toNode),
    ("passed", .ofNat tally.passed),
    ("failed", .ofNat tally.failed)]

def record : Record RuleTally :=
  RuleTally.mk
    <$> .required "ruleIndex" Decoder.count
    <*> .required "rule" RuleKind.decoder
    <*> .required "assignmentType" AssignmentType.decoder
    <*> .required "passed" Decoder.count
    <*> .required "failed" Decoder.count

def decoder : Decoder RuleTally := record.lenient

end RuleTally

namespace Summary

def toNode (summary : Summary) : Node :=
  .ofMembers [
    ("total", .ofNat summary.total),
    ("admitted", .ofNat summary.admitted),
    ("denied", .ofNat summary.denied),
    ("withWarnings", .ofNat summary.withWarnings),
    ("rules", .ofList RuleTally.toNode summary.rules)]

def record : Record Summary :=
  Summary.mk
    <$> .required "total" Decoder.count
    <*> .required "admitted" Decoder.count
    <*> .required "denied" Decoder.count
    <*> .required "withWarnings" Decoder.count
    <*> .required "rules" (Decoder.list RuleTally.decoder)

def decoder : Decoder Summary := record.lenient

end Summary

namespace Report

def toNode (report : Report) : Node :=
  .ofMembers [
    ("id", report.id.toNode),
    ("createdAt", report.createdAt.toNode),
    ("courseId", .ofText report.courseId),
    ("criteria", report.criteria.toNode),
    ("students", .ofList StudentVerdict.toNode report.students),
    ("summary", report.summary.toNode),
    ("durationMs", .ofNat report.duration)]

def record (room : Nat) : Record Report :=
  Report.mk
    <$> .required "id" Uuid.decoder
    <*> .required "createdAt" Instant.decoder
    <*> .required "courseId" Decoder.text
    <*> .required "criteria" Criteria.decoder
    <*> .required "students" (Decoder.list (StudentVerdict.decoder (room - 2)))
    <*> .required "summary" Summary.decoder
    <*> .required "durationMs" Decoder.count

def decoder : Decoder Report := (record Decoder.nestingLimit).lenient

/-- The text that a report is kept as. -/
def save (report : Report) : String := Json.pretty report.toNode

/-- The report that is kept as a text. -/
def load (text : String) : Except DecodeError Report := Json.decode decoder text

end Report

namespace Change

def toNode (change : Change) : Node :=
  .ofMembers [("studentId", .ofText change.id), ("deniedBy", .ofList .ofText change.deniedBy)]

end Change

namespace ChangeReport

def toNode (changes : ChangeReport) : Node :=
  .ofMembers [
    ("criteriaChanged", .bool changes.criteriaChanged),
    ("newlyAdmitted", .ofList Change.toNode changes.newlyAdmitted),
    ("newlyDenied", .ofList Change.toNode changes.newlyDenied),
    ("unchanged", .ofNat changes.unchanged),
    ("newStudents", .ofNat changes.newStudents),
    ("removedStudents", .ofNat changes.removedStudents)]

end ChangeReport

end CourseAdmission
