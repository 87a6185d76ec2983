import CourseAdmission.Criteria.Rule
import CourseAdmission.Document.Record

/-!
Criteria as they are written, before they are checked.

Drafts hold what a document says. Their objects refuse members that have no field: a misspelled name
must not turn into criteria that admit everybody. `RuleDraft.check` makes a rule of a draft or names
its first fault.
-/

namespace CourseAdmission

open Document

structure RoundingDraft where
  kind : Option String
  decimals : Option Int
  deriving DecidableEq

structure RuleDraft where
  kind : Option String
  assignmentType : Option String
  requiredPercent : Option Binary64
  averageRounding : Option RoundingDraft
  passedPercent : Option Binary64
  passedRounding : Option RoundingDraft
  deriving DecidableEq

/-- The rules of a criteria document in order. -/
abbrev CriteriaDraft : Type := List RuleDraft

namespace RoundingDraft

def record : Record RoundingDraft :=
  RoundingDraft.mk
    <$> .optional RoundingField.kind.name [] Decoder.text
    <*> .optional RoundingField.decimals.name [] Decoder.signedWord

def decoder (surplus : Surplus) : Decoder RoundingDraft := record.decode .refused surplus

/-- The policy that is meant by the draft in a field. -/
def check (field : RuleField) (draft : Option RoundingDraft) : Except RuleError RoundingPolicy := do
  let some draft := draft | throw (.missingField field)
  let some tag := draft.kind | throw (.missingRoundingField field .kind)
  match tag with
  | "NONE" => return .none
  | "UP_NEAREST_INTEGER" => return .up
  | "DOWN_NEAREST_INTEGER" => return .down
  | "DECIMALS" =>
    let some requested := draft.decimals | throw (.missingRoundingField field .decimals)
    if 0 ≤ requested ∧ requested ≤ RoundingPolicy.maxPlaces then return .decimals requested.toNat
    else throw (.decimalsOutOfRange field requested)
  | tag => throw (.unknownRounding field tag)

end RoundingDraft

namespace RuleDraft

def record (surplus : Surplus) : Record RuleDraft :=
  RuleDraft.mk
    <$> .optional RuleField.kind.name [] Decoder.text
    <*> .optional RuleField.assignmentType.name [] Decoder.text
    <*> .optional RuleField.requiredPercent.name [] Decoder.double
    <*> .optional RuleField.averageRounding.name ["rounding"] (RoundingDraft.decoder surplus)
    <*> .optional RuleField.passedPercent.name [] Decoder.double
    <*> .optional RuleField.passedRounding.name [] (RoundingDraft.decoder surplus)

def decoder (surplus : Surplus) : Decoder RuleDraft := (record surplus).decode .refused surplus

/-- The kind of rule that a tag names. -/
def kindOfTag (tag : String) : Except RuleError RuleKind :=
  match [RuleKind.overall, RuleKind.passedShare].find? (·.tag == tag) with
  | some kind => .ok kind
  | none => .error (.unknownRuleKind tag)

/-- The assignment type that a text names. The error quotes the text as it is written. -/
def typeOfText (text : String) : Except RuleError AssignmentType :=
  match AssignmentType.ofText? text with
  | some type => .ok type
  | none => .error (.unknownAssignmentType text)

/-- The value of a field that has to be there. -/
def present {α : Type} (field : RuleField) : Option α → Except RuleError α
  | some value => .ok value
  | none => .error (.missingField field)

/-- The rule that is meant by the draft. Fields that its kind does not use are not looked at. -/
def check (draft : RuleDraft) : Except RuleError Rule := do
  let kind ← kindOfTag (← present .kind draft.kind)
  let type ← typeOfText (← present .assignmentType draft.assignmentType)
  let required ← present .requiredPercent draft.requiredPercent
  let rounding ← RoundingDraft.check .averageRounding draft.averageRounding
  match kind with
  | .overall => Rule.makeOverall type required rounding
  | .passedShare =>
    let passedRequired ← present .passedPercent draft.passedPercent
    let passedRounding ← RoundingDraft.check .passedRounding draft.passedRounding
    Rule.makePassedShare type required rounding passedRequired passedRounding

end RuleDraft

namespace CriteriaDraft

def record (surplus : Surplus) : Record CriteriaDraft :=
  .defaulted "rules" ["criteria"] [] (Decoder.list (RuleDraft.decoder surplus))

def decoder (surplus : Surplus) : Decoder CriteriaDraft := (record surplus).decode .refused surplus

/-- Checks drafts from the place `index` on, and gives the place of the first faulty one. -/
def checkFrom (index : Nat) : CriteriaDraft → Except (Nat × RuleError) (List Rule)
  | [] => .ok []
  | draft :: drafts =>
    match draft.check with
    | .error error => .error (index, error)
    | .ok rule => (rule :: ·) <$> checkFrom (index + 1) drafts

/-- The criteria that are meant by the drafts. -/
def check (drafts : CriteriaDraft) : Except (Nat × RuleError) Criteria :=
  Criteria.mk <$> checkFrom 0 drafts

end CriteriaDraft

end CourseAdmission
