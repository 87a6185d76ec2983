import CourseAdmission.Criteria.Rule

/-!
Criteria that are legal but probably not meant: repeated rules, thresholds of zero, and several
overall rules for one type.
-/

namespace CourseAdmission

structure LintWarning where
  /-- The rule that the warning is about, if it is about one. -/
  rule : Option Nat
  message : String
  deriving DecidableEq, Repr

namespace Criteria

/-- The rules with their places. -/
def indexed (criteria : Criteria) : List (Rule × Nat) := criteria.rules.zipIdx

/-- Each rule that an earlier one equals, with the place of the first such rule. -/
def duplicates (criteria : Criteria) : List (Nat × Nat) :=
  criteria.indexed.filterMap fun (rule, index) =>
    ((criteria.rules.take index).findIdx? (· == rule)).map fun first => (index, first)

/-- What a rule's thresholds of zero mean. -/
def zeroThresholds : Rule → List String
  | .overall _ average =>
    if average.required == 0 then
      ["requiredPercent is 0; rule passes for any non-negative average"]
    else []
  | .passedShare _ average share =>
    (if average.required == 0 then ["requiredPercent is 0; the average condition always holds"]
      else []) ++
    (if share.required == 0 then
      ["passedAssignmentsPercent is 0; the passed-assignments condition always holds"]
      else [])

/-- The places of the overall rules of a type. -/
def overallPlaces (criteria : Criteria) (type : AssignmentType) : List Nat :=
  criteria.indexed.filterMap fun (rule, index) =>
    if rule.kind == .overall && rule.type == type then some index else none

/-- Types with several overall rules, of which only the strictest matters. -/
def repeatedTypes (criteria : Criteria) : List (AssignmentType × List Nat) :=
  (AssignmentType.all.map fun type => (type, criteria.overallPlaces type)).filter fun (_, places) =>
    decide (1 < places.length)

/-- All warnings: on repeated rules, on thresholds of zero, then on the criteria as a whole. -/
def lint (criteria : Criteria) : List LintWarning :=
  (criteria.duplicates.map fun (index, first) =>
    ⟨some index, "duplicates rule " ++ toString first⟩) ++
  (criteria.indexed.flatMap fun (rule, index) =>
    (zeroThresholds rule).map fun message => ⟨some index, message⟩) ++
  (criteria.repeatedTypes.map fun (type, places) =>
    ⟨none, toString places.length ++ " " ++ RuleKind.overall.tag ++ " rules for " ++ type.tag ++
      " (rules " ++ ", ".intercalate (places.map toString) ++ ")"⟩)

end Criteria

end CourseAdmission
