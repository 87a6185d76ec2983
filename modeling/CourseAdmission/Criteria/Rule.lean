import CourseAdmission.Criteria.Error
import CourseAdmission.Results.Aggregate

/-!
The rules that a student has to pass.

A rule makes demands on the aggregate of one assignment type. A demand is a threshold from 0 to 100
and the rounding that comes before the comparison; both are checked where a demand is made, so every
rule that exists can be applied.
-/

namespace CourseAdmission

inductive RuleKind where
  | overall
  | passedShare
  deriving DecidableEq, Repr, Inhabited

def RuleKind.tag : RuleKind → String
  | .overall => "REQUIRED_PERCENT_OVERALL"
  | .passedShare => "PASSED_X_PERCENT_WITH_AT_LEAST_Y_PERCENT"

/-- A percentage that has to be reached after rounding. -/
structure Demand where
  required : Binary64
  rounding : RoundingPolicy
  isPercent : required.IsPercent
  allowed : rounding.Allowed
  deriving DecidableEq

/-- Demands are compared by the values of their thresholds. -/
instance : BEq Demand := ⟨fun a b => a.required == b.required && a.rounding == b.rounding⟩

namespace Demand

/-- A threshold that is a percentage, or the error that names its field. -/
def checkPercent (field : RuleField) (value : Binary64) :
    Except RuleError { value : Binary64 // value.IsPercent } :=
  if h : value.IsPercent then .ok ⟨value, h⟩ else .error (.percentOutOfRange field value)

/-- A rounding that criteria may ask for, or the error that names its field. -/
def checkRounding (field : RuleField) :
    RoundingPolicy → Except RuleError { rounding : RoundingPolicy // rounding.Allowed }
  | .none => .ok ⟨.none, trivial⟩
  | .up => .ok ⟨.up, trivial⟩
  | .down => .ok ⟨.down, trivial⟩
  | .decimals places =>
    if h : places ≤ RoundingPolicy.maxPlaces then .ok ⟨.decimals places, h⟩
    else .error (.decimalsOutOfRange field places)

/-- The demand of a threshold and a rounding, which are written in the given fields. The threshold
    is checked first. -/
def make (percentField : RuleField) (required : Binary64) (roundingField : RuleField)
    (rounding : RoundingPolicy) : Except RuleError Demand := do
  let required ← checkPercent percentField required
  let rounding ← checkRounding roundingField rounding
  return ⟨required.1, rounding.1, required.2, rounding.2⟩

/-- The percentage as it is compared. -/
def rounded (demand : Demand) (percent : Binary64) : Binary64 := demand.rounding.apply percent

/-- Reaching the threshold is enough. -/
def holds (demand : Demand) (percent : Binary64) : Bool :=
  decide (demand.required ≤ demand.rounded percent)

end Demand

inductive Rule where
  /-- The average of the type's results has to reach a percentage. -/
  | overall (type : AssignmentType) (average : Demand)
  /-- The average has to reach one percentage, and the share of passed results another. -/
  | passedShare (type : AssignmentType) (average : Demand) (share : Demand)
  deriving DecidableEq

namespace Rule

/-- Rules are compared by the values of their thresholds. -/
def same : Rule → Rule → Bool
  | .overall t a, .overall t' a' => t == t' && a == a'
  | .passedShare t a s, .passedShare t' a' s' => t == t' && a == a' && s == s'
  | _, _ => false

instance : BEq Rule := ⟨same⟩

def kind : Rule → RuleKind
  | .overall .. => .overall
  | .passedShare .. => .passedShare

def type : Rule → AssignmentType
  | .overall type _ => type
  | .passedShare type .. => type

def makeOverall (type : AssignmentType) (required : Binary64) (rounding : RoundingPolicy) :
    Except RuleError Rule := do
  let average ← Demand.make .requiredPercent required .averageRounding rounding
  return .overall type average

def makePassedShare (type : AssignmentType) (required : Binary64) (rounding : RoundingPolicy)
    (passedRequired : Binary64) (passedRounding : RoundingPolicy) : Except RuleError Rule := do
  let average ← Demand.make .requiredPercent required .averageRounding rounding
  let share ← Demand.make .passedPercent passedRequired .passedRounding passedRounding
  return .passedShare type average share

end Rule

/-- The rules of one course in order. All of them have to pass, so without any everybody is
    admitted. -/
structure Criteria where
  rules : List Rule
  deriving DecidableEq

namespace Criteria

instance : BEq Criteria := ⟨fun a b => a.rules == b.rules⟩

def empty : Criteria := ⟨[]⟩

instance : Inhabited Criteria := ⟨empty⟩

def add (criteria : Criteria) (rule : Rule) : Criteria := ⟨criteria.rules ++ [rule]⟩

def size (criteria : Criteria) : Nat := criteria.rules.length

def isEmpty (criteria : Criteria) : Bool := criteria.rules.isEmpty

/-- The types that the rules look at, in the order in which the types are declared. -/
def types (criteria : Criteria) : List AssignmentType :=
  AssignmentType.all.filter fun type => criteria.rules.any (·.type == type)

end Criteria

/-- What a course's configuration says about admission. -/
structure CourseConfig where
  id : Option String
  criteria : Option Criteria
  deriving DecidableEq

/-- The configured criteria, or empty ones. -/
def CourseConfig.effectiveCriteria (config : CourseConfig) : Criteria :=
  config.criteria.getD .empty

end CourseAdmission
