import CourseAdmission.Criteria.Rule

/-!
The decision on one student, with the numbers behind it.

A verdict holds one result for each rule in the order of the criteria; a result holds the raw and
the rounded percentages and the thresholds that they were compared with.
-/

namespace CourseAdmission

/-- The numbers behind the outcome of an overall rule. -/
structure OverallDetails where
  count : Nat
  average : Binary64
  rounding : RoundingPolicy
  rounded : Binary64
  required : Binary64
  deriving DecidableEq, BEq

/-- The numbers behind the outcome of a rule on the share of passed assignments. -/
structure PassedShareDetails where
  count : Nat
  passedCount : Nat
  average : Binary64
  averageRounding : RoundingPolicy
  averageRounded : Binary64
  averageRequired : Binary64
  averageMet : Bool
  share : Binary64
  shareRounding : RoundingPolicy
  shareRounded : Binary64
  shareRequired : Binary64
  shareMet : Bool
  deriving DecidableEq, BEq

inductive RuleDetails where
  | overall (details : OverallDetails)
  | passedShare (details : PassedShareDetails)
  deriving DecidableEq, BEq

/-- What is doubtful about the data behind an outcome; it changes no outcome. -/
inductive DataWarning where
  /-- The type has no results, so both percentages were taken as zero. -/
  | noResults (type : AssignmentType)
  /-- Results outside 0 to 100, which were averaged as they are. -/
  | outOfRange (ids : List String)
  deriving DecidableEq

structure RuleResult where
  /-- The place of the rule in the criteria. -/
  index : Nat
  kind : RuleKind
  type : AssignmentType
  passed : Bool
  details : RuleDetails
  warnings : List DataWarning
  deriving DecidableEq, BEq

structure Verdict where
  admitted : Bool
  results : List RuleResult
  deriving DecidableEq, BEq

/-- A percentage in a message, with two decimal places. -/
def percentText (percent : Binary64) : String := percent.toFixed 2 ++ "%"

/-- How a percentage was rounded, and to what. -/
def roundedText (rounding : RoundingPolicy) (rounded : Binary64) : String :=
  "(" ++ rounding.describe ++ ": " ++ rounded.toText ++ "%)"

def DataWarning.message : DataWarning → String
  | .noResults type => "no " ++ type.tag ++ " assignments found; treated as 0%"
  | .outOfRange ids => "achieved percent outside 0-100 for: " ++ ", ".intercalate ids

def OverallDetails.explain (d : OverallDetails) : String :=
  "average " ++ percentText d.average ++ " " ++ roundedText d.rounding d.rounded ++
    " against required " ++ d.required.toText ++ "%"

def PassedShareDetails.explain (d : PassedShareDetails) : String :=
  "average " ++ percentText d.average ++ " " ++ roundedText d.averageRounding d.averageRounded ++
    " against required " ++ d.averageRequired.toText ++ "%; passed " ++
    toString d.passedCount ++ "/" ++ toString d.count ++ " = " ++ percentText d.share ++ " " ++
    roundedText d.shareRounding d.shareRounded ++
    " against required " ++ d.shareRequired.toText ++ "%"

def RuleDetails.explain : RuleDetails → String
  | .overall details => details.explain
  | .passedShare details => details.explain

namespace RuleResult

/-- The outcome of a rule in one line. -/
def summary (result : RuleResult) : String :=
  "rule " ++ toString result.index ++ " " ++ result.kind.tag ++ " [" ++ result.type.tag ++ "]: " ++
    (if result.passed then "passed" else "failed") ++ " (" ++ result.details.explain ++ ")"

def hasWarnings (result : RuleResult) : Bool := !result.warnings.isEmpty

/-- The outcome in one line, and a line for each warning. -/
def explanation (result : RuleResult) : List String :=
  result.summary :: result.warnings.map fun warning => "  warning: " ++ warning.message

end RuleResult

namespace Verdict

/-- Without rules everybody is admitted. -/
def unconditional : Verdict := ⟨true, []⟩

def failed (verdict : Verdict) : List RuleResult := verdict.results.filter fun r => !r.passed

def warnings (verdict : Verdict) : List DataWarning := verdict.results.flatMap (·.warnings)

def hasWarnings (verdict : Verdict) : Bool := verdict.results.any (·.hasWarnings)

def explanation (verdict : Verdict) : List String :=
  if verdict.results.isEmpty then ["no admission criteria configured"]
  else verdict.results.flatMap (·.explanation)

def summary (verdict : Verdict) : String :=
  let count := toString verdict.results.length
  if verdict.admitted then
    if verdict.results.isEmpty then "admitted (no admission criteria)"
    else "admitted (" ++ count ++ " of " ++ count ++ " rules passed)"
  else "not admitted (" ++ toString verdict.failed.length ++ " of " ++ count ++ " rules failed)"

end Verdict

end CourseAdmission
