import CourseAdmission.Binary64.Basic

/-!
A running sum of doubles without rounding error.

The sum is held as partials of increasing magnitude that share no binary digits, so it is rounded
only once, when `total` is asked for; the mean of grades such as `58.3`, `70.1` and `81.6` then is
the whole number that it should be.
-/

namespace CourseAdmission

structure ExactSum where
  /-- Summands of the exact sum, the smallest first. -/
  partials : List Binary64
  /-- The sum of the values added that are no finite numbers. -/
  nonFinite : Binary64
  deriving DecidableEq

namespace ExactSum

def empty : ExactSum := ⟨[], .zero⟩

/-- The rounded sum of two doubles and what the rounding lost. The lost part is computed exactly if
    the first one is the greater in magnitude, so they are put into that order. -/
def twoSum (x y : Binary64) : Binary64 × Binary64 :=
  let (x, y) := if x.abs < y.abs then (y, x) else (x, y)
  let high := x + y
  (high, y - (high - x))

/-- The partials while a value is added to them in place. -/
structure Sweep where
  /-- What was lost so far stands in front; what is not yet overwritten is as it was. -/
  buffer : List Binary64
  /-- How many losses are kept, and so the place where the next one is written. -/
  kept : Nat
  /-- The rounded sum of the value and the partials read so far. -/
  running : Binary64

namespace Sweep

/-- Takes up the partial at a place: what is lost stays behind, the rounded sum goes on. -/
def step (sweep : Sweep) (read : Nat) : Sweep :=
  let (high, low) := twoSum sweep.running (sweep.buffer.getD read 0)
  if low == 0 then { sweep with running := high }
  else ⟨sweep.buffer.set sweep.kept low, sweep.kept + 1, high⟩

/-- Where adding a value stands after some places, the first of them, have been read. -/
def after (value : Binary64) (partials : List Binary64) (count : Nat) : Sweep :=
  (List.range count).foldl step ⟨partials, 0, value⟩

/-- Only what was lost is kept, and the running sum ends as the greatest partial. -/
def close (sweep : Sweep) : List Binary64 := sweep.buffer.take sweep.kept ++ [sweep.running]

end Sweep

def add (sum : ExactSum) (value : Binary64) : ExactSum :=
  if value.isFinite then
    { sum with partials := (Sweep.after value sum.partials sum.partials.length).close }
  else { sum with nonFinite := sum.nonFinite + value }

def ofList (values : List Binary64) : ExactSum := values.foldl add empty

/-- Adds partials from the greatest down until a sum is inexact: the rounded sum, what it lost, and
    the partials not yet looked at. -/
def collapse (high : Binary64) : List Binary64 → Binary64 × Binary64 × List Binary64
  | [] => (high, 0, [])
  | next :: smaller =>
    let sum := high + next
    let low := next - (sum - high)
    if low == 0 then collapse sum smaller else (sum, low, smaller)

/-- Two numbers on the same side of zero. -/
def sameSide (x y : Binary64) : Bool :=
  decide (x < 0) && decide (y < 0) || decide (0 < x) && decide (0 < y)

/-- The correctly rounded sum. If the rounded sum lies half way between two doubles, the partials
    not looked at decide on which side the exact sum is. -/
def total (sum : ExactSum) : Binary64 :=
  if sum.nonFinite == 0 then
    match sum.partials.reverse with
    | [] => 0
    | greatest :: smaller =>
      match collapse greatest smaller with
      | (high, low, next :: _) =>
        if sameSide low next then
          let twice := low * 2
          let moved := high + twice
          if twice == moved - high then moved else high
        else high
      | (high, _, []) => high
  else sum.nonFinite

end ExactSum

end CourseAdmission
