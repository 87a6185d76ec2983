import CourseAdmission.Results.Basic
import CourseAdmission.Results.ExactSum

/-!
One student's results of one type in numbers, not rounded: rules differ in how they round the same
numbers.
-/

namespace CourseAdmission

structure TypeAggregate where
  type : AssignmentType
  /-- How many results have the type. -/
  count : Nat
  /-- How many of them are passed. -/
  passed : Nat
  /-- The mean of their percentages, zero without any. -/
  average : Binary64
  /-- The share of passed ones in percent, zero without any. -/
  passedPercent : Binary64
  /-- The assignments whose percentage lies outside 0 to 100, in the order of the results. -/
  outOfRange : List String
  deriving DecidableEq, Inhabited

/-- A percentage from 0 to 100. -/
def Binary64.IsPercent (x : Binary64) : Prop := 0 ≤ x ∧ x ≤ 100

instance (x : Binary64) : Decidable x.IsPercent := inferInstanceAs (Decidable (_ ∧ _))

/-- A part of a whole in percent, zero of an empty whole. -/
def percentOf (part whole : Nat) : Binary64 :=
  if whole = 0 then 0 else Binary64.ofNat part * 100 / Binary64.ofNat whole

namespace TypeAggregate

/-- The results of a type, in order. -/
def matching (results : List AssignmentResult) (type : AssignmentType) : List AssignmentResult :=
  results.filter (·.type == type)

def mean (percents : List Binary64) : Binary64 :=
  if percents.isEmpty then 0 else (ExactSum.ofList percents).total / Binary64.ofNat percents.length

/-- The aggregate of the results of one type. Without any of them both percentages are zero, so a
    rule with a positive threshold fails on missing evidence. -/
def ofResults (results : List AssignmentResult) (type : AssignmentType) : TypeAggregate :=
  let own := matching results type
  { type
    count := own.length
    passed := own.countP (·.passed)
    average := mean (own.map (·.percent))
    passedPercent := percentOf (own.countP (·.passed)) own.length
    outOfRange := (own.filter fun r => !decide r.percent.IsPercent).map (·.id) }

def hasData (aggregate : TypeAggregate) : Bool := decide (0 < aggregate.count)

end TypeAggregate

/-- Aggregates of one student's results, each computed when it is first asked for. -/
structure AggregateCache where
  results : List AssignmentResult
  computed : List (AssignmentType × TypeAggregate)

namespace AggregateCache

def ofResults (results : List AssignmentResult) : AggregateCache := ⟨results, []⟩

/-- How many types have been asked for. -/
def size (cache : AggregateCache) : Nat := cache.computed.length

def isEmpty (cache : AggregateCache) : Bool := cache.computed.isEmpty

/-- The aggregate of a type, and the cache that holds it from now on. -/
def get (cache : AggregateCache) (type : AssignmentType) : TypeAggregate × AggregateCache :=
  match cache.computed.lookup type with
  | some aggregate => (aggregate, cache)
  | none =>
    let aggregate := TypeAggregate.ofResults cache.results type
    (aggregate, { cache with computed := (type, aggregate) :: cache.computed })

end AggregateCache

end CourseAdmission
