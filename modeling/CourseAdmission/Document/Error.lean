import CourseAdmission.Criteria.Error

/-!
Why a document does not decode.

Causes that the document's reader words itself have no message of their own here; they are all
`unreadable`.
-/

namespace CourseAdmission

inductive DecodeError where
  /-- The text is not of the format, or a part of it has another shape than the one expected. -/
  | unreadable
  | unknownField (name : String)
  | unknownVariant (name : String)
  | duplicateField (name : String)
  | missingField (name : String)
  /-- A result or a verdict names no known assignment type. -/
  | unknownAssignmentType (tag : String)
  /-- A rule that stands alone is refused. -/
  | rule (error : RuleError)
  /-- The rule at this place of some criteria is refused. -/
  | ruleAt (index : Nat) (error : RuleError)
  deriving DecidableEq

/-- The message on the rule at a place of the criteria. -/
def RuleError.messageAt (error : RuleError) (index : Nat) : String :=
  "rule " ++ toString index ++ ": " ++ error.message

/-- The message, where the cause has one. -/
def DecodeError.message? : DecodeError → Option String
  | .unreadable => none
  | .unknownField name => some ("unknown field `" ++ name ++ "`")
  | .unknownVariant name => some ("unknown variant `" ++ name ++ "`")
  | .duplicateField name => some ("duplicate field `" ++ name ++ "`")
  | .missingField name => some ("missing field `" ++ name ++ "`")
  | .unknownAssignmentType tag => some ("unknown assignment type: " ++ tag)
  | .rule error => some error.message
  | .ruleAt index error => some (error.messageAt index)

end CourseAdmission
