import CourseAdmission.RoundingPolicy.Document
import CourseAdmission.Verdict.Basic

/-!
Verdicts and aggregates in documents.

`room` is how many brackets may still be opened where a part is set aside.
-/

namespace CourseAdmission

open Document

namespace AssignmentType

def toNode (type : AssignmentType) : Node := .ofText type.tag

/-- The type that a text names; the error quotes the text as it is compared. -/
def decoder : Decoder AssignmentType := fun node => do
  let text ← Decoder.text node
  match ofText? text with
  | some type => return type
  | none => throw (.unknownAssignmentType (normalTag text))

end AssignmentType

namespace TypeAggregate

/-- The list of assignments out of range is left out if it is empty. -/
def toNode (aggregate : TypeAggregate) : Node :=
  .ofMembers ([
    ("assignmentType", aggregate.type.toNode),
    ("assignmentCount", .ofNat aggregate.count),
    ("passedCount", .ofNat aggregate.passed),
    ("averageAchievedPercent", .ofDouble aggregate.average),
    ("passedPercent", .ofDouble aggregate.passedPercent)] ++
    if aggregate.outOfRange.isEmpty then []
    else [("outOfRange", .ofList .ofText aggregate.outOfRange)])

def record : Record TypeAggregate :=
  TypeAggregate.mk
    <$> .required "assignmentType" AssignmentType.decoder
    <*> .required "assignmentCount" Decoder.count
    <*> .required "passedCount" Decoder.count
    <*> .required "averageAchievedPercent" Decoder.double
    <*> .required "passedPercent" Decoder.double
    <*> .defaulted "outOfRange" [] [] (Decoder.list Decoder.text)

def decoder : Decoder TypeAggregate := record.lenient

end TypeAggregate

namespace RuleKind

def toNode (kind : RuleKind) : Node := .ofText kind.tag

def ofTag (tag : String) : Except DecodeError RuleKind :=
  match [overall, passedShare].find? (·.tag == tag) with
  | some kind => .ok kind
  | none => .error (.unknownVariant tag)

/-- A kind is its tag, or an object with nothing but a `null` under the tag. -/
def decoder : Decoder RuleKind
  | .text (.whole tag) => ofTag tag
  | .object ((.whole tag, value) :: members) => do
    let kind ← ofTag tag
    match value, members with
    | .null, [] => return kind
    | _, _ => throw .unreadable
  | _ => .error .unreadable

end RuleKind

namespace OverallDetails

def members (d : OverallDetails) : List (String × Node) := [
  ("assignmentCount", .ofNat d.count),
  ("achievedPercent", .ofDouble d.average),
  ("rounding", d.rounding.toNode),
  ("roundedPercent", .ofDouble d.rounded),
  ("requiredPercent", .ofDouble d.required)]

def record (room : Nat) : Record OverallDetails :=
  OverallDetails.mk
    <$> .required "assignmentCount" Decoder.count
    <*> .required "achievedPercent" Decoder.double
    <*> .required "rounding" (RoundingPolicy.decoder .nameOrPlace room)
    <*> .required "roundedPercent" Decoder.double
    <*> .required "requiredPercent" Decoder.double

end OverallDetails

namespace PassedShareDetails

def members (d : PassedShareDetails) : List (String × Node) := [
  ("assignmentCount", .ofNat d.count),
  ("passedCount", .ofNat d.passedCount),
  ("achievedPercent", .ofDouble d.average),
  ("achievedPercentRounding", d.averageRounding.toNode),
  ("achievedRounded", .ofDouble d.averageRounded),
  ("requiredPercent", .ofDouble d.averageRequired),
  ("achievedMet", .bool d.averageMet),
  ("passedPercent", .ofDouble d.share),
  ("passedAssignmentsRounding", d.shareRounding.toNode),
  ("passedRounded", .ofDouble d.shareRounded),
  ("passedAssignmentsPercent", .ofDouble d.shareRequired),
  ("passedMet", .bool d.shareMet)]

def record (room : Nat) : Record PassedShareDetails :=
  PassedShareDetails.mk
    <$> .required "assignmentCount" Decoder.count
    <*> .required "passedCount" Decoder.count
    <*> .required "achievedPercent" Decoder.double
    <*> .required "achievedPercentRounding" (RoundingPolicy.decoder .nameOrPlace room)
    <*> .required "achievedRounded" Decoder.double
    <*> .required "requiredPercent" Decoder.double
    <*> .required "achievedMet" Decoder.bool
    <*> .required "passedPercent" Decoder.double
    <*> .required "passedAssignmentsRounding" (RoundingPolicy.decoder .nameOrPlace room)
    <*> .required "passedRounded" Decoder.double
    <*> .required "passedAssignmentsPercent" Decoder.double
    <*> .required "passedMet" Decoder.bool

end PassedShareDetails

namespace RuleDetails

def toNode : RuleDetails → Node
  | .overall d => .ofMembers (("type", .ofText RuleKind.overall.tag) :: d.members)
  | .passedShare d => .ofMembers (("type", .ofText RuleKind.passedShare.tag) :: d.members)

def variants (room : Nat) : List (Variant RuleDetails) :=
  [.ofRecord RuleKind.overall.tag (.overall <$> OverallDetails.record room),
    .ofRecord RuleKind.passedShare.tag (.passedShare <$> PassedShareDetails.record room)]

def decoder (room : Nat) : Decoder RuleDetails :=
  Variant.decode (variants (room - 1)) .nameOnly room

end RuleDetails

namespace DataWarning

def toNode : DataWarning → Node
  | .noResults type =>
    .ofMembers [("type", .ofText "NO_MATCHING_ASSIGNMENTS"), ("assignmentType", type.toNode)]
  | .outOfRange ids =>
    .ofMembers [("type", .ofText "PERCENT_OUT_OF_RANGE"), ("assignmentIds", .ofList .ofText ids)]

def variants : List (Variant DataWarning) :=
  [.ofRecord "NO_MATCHING_ASSIGNMENTS"
      (.noResults <$> .required "assignmentType" AssignmentType.decoder),
    .ofRecord "PERCENT_OUT_OF_RANGE"
      (.outOfRange <$> .required "assignmentIds" (Decoder.list Decoder.text))]

def decoder (room : Nat) : Decoder DataWarning := Variant.decode variants .nameOnly room

end DataWarning

namespace RuleResult

def toNode (result : RuleResult) : Node :=
  .ofMembers [
    ("ruleIndex", .ofNat result.index),
    ("rule", result.kind.toNode),
    ("assignmentType", result.type.toNode),
    ("passed", .bool result.passed),
    ("details", result.details.toNode),
    ("warnings", .ofList DataWarning.toNode result.warnings)]

def record (room : Nat) : Record RuleResult :=
  RuleResult.mk
    <$> .required "ruleIndex" Decoder.count
    <*> .required "rule" RuleKind.decoder
    <*> .required "assignmentType" AssignmentType.decoder
    <*> .required "passed" Decoder.bool
    <*> .required "details" (RuleDetails.decoder (room - 1))
    <*> .defaulted "warnings" [] [] (Decoder.list (DataWarning.decoder (room - 2)))

def decoder (room : Nat) : Decoder RuleResult := (record room).lenient

end RuleResult

namespace Verdict

def toNode (verdict : Verdict) : Node :=
  .ofMembers [
    ("admitted", .bool verdict.admitted),
    ("details", .ofList RuleResult.toNode verdict.results)]

def record (room : Nat) : Record Verdict :=
  Verdict.mk
    <$> .required "admitted" Decoder.bool
    <*> .required "details" (Decoder.list (RuleResult.decoder (room - 2)))

def decoder (room : Nat) : Decoder Verdict := (record room).lenient

end Verdict

end CourseAdmission
