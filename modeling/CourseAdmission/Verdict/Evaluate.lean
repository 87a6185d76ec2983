import CourseAdmission.Verdict.Basic

/-!
Applying criteria to one student's results.

Every rule is applied, also after one has failed, so that the verdict explains all of them. Rules of
one type share the type's aggregate, which is computed once.
-/

namespace CourseAdmission

/-- Whether a rule passes, and on which numbers. -/
structure Outcome where
  passed : Bool
  details : RuleDetails
  deriving DecidableEq, BEq

/-- The rule applied to the aggregate of its type. -/
def Rule.outcome (rule : Rule) (aggregate : TypeAggregate) : Outcome :=
  match rule with
  | .overall _ average =>
    { passed := average.holds aggregate.average
      details := .overall {
        count := aggregate.count
        average := aggregate.average
        rounding := average.rounding
        rounded := average.rounded aggregate.average
        required := average.required } }
  | .passedShare _ average share =>
    { passed := average.holds aggregate.average && share.holds aggregate.passedPercent
      details := .passedShare {
        count := aggregate.count
        passedCount := aggregate.passed
        average := aggregate.average
        averageRounding := average.rounding
        averageRounded := average.rounded aggregate.average
        averageRequired := average.required
        averageMet := average.holds aggregate.average
        share := aggregate.passedPercent
        shareRounding := share.rounding
        shareRounded := share.rounded aggregate.passedPercent
        shareRequired := share.required
        shareMet := share.holds aggregate.passedPercent } }

/-- What is noteworthy about the data of a type. -/
def TypeAggregate.warnings (aggregate : TypeAggregate) : List DataWarning :=
  (if aggregate.hasData then [] else [.noResults aggregate.type]) ++
    (if aggregate.outOfRange.isEmpty then [] else [.outOfRange aggregate.outOfRange])

/-- The result of the rule at a place of the criteria. -/
def Rule.result (rule : Rule) (index : Nat) (aggregate : TypeAggregate) : RuleResult :=
  let outcome := rule.outcome aggregate
  { index
    kind := rule.kind
    type := rule.type
    passed := outcome.passed
    details := outcome.details
    warnings := aggregate.warnings }

/-- The results of consecutive rules, from the place `index` on. -/
def Rule.resultsFrom (cache : AggregateCache) (index : Nat) : List Rule → List RuleResult
  | [] => []
  | rule :: rules =>
    let (aggregate, cache) := cache.get rule.type
    rule.result index aggregate :: Rule.resultsFrom cache (index + 1) rules

/-- The verdict on a student with these results. -/
def Criteria.evaluate (criteria : Criteria) (results : List AssignmentResult) : Verdict :=
  if criteria.isEmpty then .unconditional
  else
    let ruleResults := Rule.resultsFrom (.ofResults results) 0 criteria.rules
    ⟨ruleResults.all (·.passed), ruleResults⟩

end CourseAdmission
