import CourseAdmission.Criteria.Draft
import CourseAdmission.Document.Whole
import CourseAdmission.RoundingPolicy.Document

/-!
Criteria and course configurations in documents.

A document of its own is first decoded as a whole and then checked, so a fault of its shape comes
before the fault of any rule. Where criteria are part of another document they are checked at their
end.
-/

namespace CourseAdmission

open Document

/-- Why a text holds no criteria. -/
inductive CriteriaError where
  | malformed (cause : DecodeError)
  | rule (index : Nat) (error : RuleError)
  deriving DecidableEq

namespace CriteriaError

def ofFault : Nat × RuleError → CriteriaError
  | (index, error) => .rule index error

def message : CriteriaError → String
  | .malformed cause => "malformed admission criteria: " ++ cause.message?.getD ""
  | .rule index error => error.messageAt index

end CriteriaError

namespace Rule

def toNode : Rule → Node
  | .overall type average =>
    .ofMembers [
      ("type", .ofText RuleKind.overall.tag),
      (RuleField.assignmentType.name, .ofText type.tag),
      (RuleField.requiredPercent.name, .ofDouble average.required),
      (RuleField.averageRounding.name, average.rounding.toNode)]
  | .passedShare type average share =>
    .ofMembers [
      ("type", .ofText RuleKind.passedShare.tag),
      (RuleField.assignmentType.name, .ofText type.tag),
      (RuleField.requiredPercent.name, .ofDouble average.required),
      (RuleField.averageRounding.name, average.rounding.toNode),
      (RuleField.passedPercent.name, .ofDouble share.required),
      (RuleField.passedRounding.name, share.rounding.toNode)]

/-- The decoder of a rule that is checked at its end. -/
def decoder : Decoder Rule := fun node => do
  match (← RuleDraft.decoder .refused node).check with
  | .ok rule => return rule
  | .error error => throw (.rule error)

end Rule

/-- The error of a part of a document whose rule at a place is refused. -/
def DecodeError.ofFault : Nat × RuleError → DecodeError
  | (index, error) => .ruleAt index error

namespace Criteria

def toNode (criteria : Criteria) : Node :=
  .ofMembers [("rules", .ofList Rule.toNode criteria.rules)]

/-- The decoder of criteria that are checked at their end. -/
def decoder : Decoder Criteria := fun node => do
  (← CriteriaDraft.decoder .refused node).check.mapError DecodeError.ofFault

/-- The criteria of drafts, if they were read. -/
def ofDrafts (drafts : Except DecodeError CriteriaDraft) : Except CriteriaError Criteria := do
  (← drafts.mapError .malformed).check.mapError .ofFault

def ofJson (text : String) : Except CriteriaError Criteria :=
  ofDrafts (Json.decode (CriteriaDraft.decoder .refused) text)

end Criteria

/-- A course configuration as it is written. -/
structure CourseConfigDraft where
  id : Option String
  criteria : Option CriteriaDraft
  deriving DecidableEq

namespace CourseConfigDraft

/-- The id of a course: a text, or an integer of 64 bits. Its kind is found out after it is set
    aside. -/
def courseId (room : Nat) : Decoder String := fun node => do
  match ← Decoder.setAside room node with
  | .text (.whole s) => return s
  | node => toString <$> Decoder.signedWord node

def record : Record CourseConfigDraft :=
  CourseConfigDraft.mk
    <$> .defaulted "id" [] none (courseId (Decoder.nestingLimit - 1)).nullable
    <*> .defaulted "admissionCriteria" [] none (CriteriaDraft.decoder .refused).nullable

def decoder : Decoder CourseConfigDraft := record.lenient

def check (draft : CourseConfigDraft) : Except (Nat × RuleError) CourseConfig :=
  match draft.criteria with
  | none => .ok ⟨draft.id, none⟩
  | some drafts => (fun criteria => ⟨draft.id, some criteria⟩) <$> drafts.check

end CourseConfigDraft

namespace CourseConfig

def toNode (config : CourseConfig) : Node :=
  .ofMembers (Node.memberIfSome "id" .ofText config.id ++
    Node.memberIfSome "admissionCriteria" Criteria.toNode config.criteria)

/-- The decoder of a configuration that is checked at its end. -/
def decoder : Decoder CourseConfig := fun node => do
  (← CourseConfigDraft.decoder node).check.mapError DecodeError.ofFault

def ofJson (text : String) : Except CriteriaError CourseConfig := do
  let draft ← (Json.decode CourseConfigDraft.decoder text).mapError .malformed
  draft.check.mapError .ofFault

end CourseConfig

end CourseAdmission
