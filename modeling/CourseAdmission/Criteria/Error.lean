import CourseAdmission.RoundingPolicy

/-!
Why a rule is refused.

Each constructor of `RuleError` is one cause; its wording is in `RuleError.message` alone.
-/

namespace CourseAdmission

/-- The fields of a rule as they are written in criteria. -/
inductive RuleField where
  | kind
  | assignmentType
  | requiredPercent
  | averageRounding
  | passedPercent
  | passedRounding
  deriving DecidableEq, Repr

def RuleField.name : RuleField → String
  | .kind => "type"
  | .assignmentType => "assignmentType"
  | .requiredPercent => "requiredPercent"
  | .averageRounding => "achievedPercentRounding"
  | .passedPercent => "passedAssignmentsPercent"
  | .passedRounding => "passedAssignmentsRounding"

/-- The fields of a rounding as they are written in criteria. -/
inductive RoundingField where
  | kind
  | decimals
  deriving DecidableEq, Repr

def RoundingField.name : RoundingField → String
  | .kind => "type"
  | .decimals => "decimals"

inductive RuleError where
  | unknownRuleKind (tag : String)
  | unknownRounding (field : RuleField) (tag : String)
  | unknownAssignmentType (tag : String)
  | missingField (field : RuleField)
  | missingRoundingField (field : RuleField) (part : RoundingField)
  | percentOutOfRange (field : RuleField) (value : Binary64)
  | decimalsOutOfRange (field : RuleField) (requested : Int)
  deriving DecidableEq

def RuleError.message : RuleError → String
  | .unknownRuleKind tag =>
    "unknown rule type '" ++ tag ++
      "' (expected REQUIRED_PERCENT_OVERALL or PASSED_X_PERCENT_WITH_AT_LEAST_Y_PERCENT)"
  | .unknownRounding field tag =>
    "unknown rounding type '" ++ tag ++ "' in " ++ field.name ++
      " (expected NONE, UP_NEAREST_INTEGER, DOWN_NEAREST_INTEGER or DECIMALS)"
  | .unknownAssignmentType tag => "unknown assignment type '" ++ tag ++ "'"
  | .missingField field => "missing required field '" ++ field.name ++ "'"
  | .missingRoundingField field part =>
    "missing required field '" ++ field.name ++ "." ++ part.name ++ "'"
  | .percentOutOfRange field value =>
    field.name ++ " must be between 0 and 100, got " ++ value.toText
  | .decimalsOutOfRange field requested =>
    field.name ++ " decimals must be between 0 and " ++ toString RoundingPolicy.maxPlaces ++
      ", got " ++ toString requested

end CourseAdmission
