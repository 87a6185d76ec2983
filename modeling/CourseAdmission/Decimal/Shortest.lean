import CourseAdmission.Binary64.Basic

/-!
The shortest decimal that reads back as a given double.

The reals that round to a double form an interval, whose ends belong to it exactly if the
significand is even. Of the decimal grids `10 ^ k`, from the coarsest on, the first with a point in
that interval decides the number of digits; of two such points on it the nearer one is taken. All of
it is decided in whole numbers of quarter units.
-/

namespace CourseAdmission

/-- The number `digits * 10 ^ exponent`. -/
structure Decimal where
  digits : Nat
  exponent : Int
  deriving DecidableEq, Repr

namespace Decimal

/-- Which of two equally near decimals is taken. -/
inductive Tie where
  | upper
  | even
  deriving DecidableEq

/-- The reals that round to a positive double, in quarter units. -/
structure Interval where
  low : Nat
  high : Nat
  endsBelong : Bool

/-- The gap below a power of two is half the gap above it, except among the smallest numbers. -/
def interval (units : Nat) : Interval :=
  let gap := Binary64.spacing units
  let gapBelow := if 2 * units = Binary64.significandLimit * gap ∧ 1 < gap then gap / 2 else gap
  ⟨4 * units - 2 * gapBelow, 4 * units + 2 * gap, units / gap % 2 = 0⟩

/-- Whether the quotient `n / d` of quarter units lies in the interval. -/
def Interval.holds (i : Interval) (n d : Nat) : Bool :=
  if i.endsBelong then decide (i.low * d ≤ n) && decide (n ≤ i.high * d)
  else decide (i.low * d < n) && decide (n < i.high * d)

/-- The spacing of the grid `10 ^ exponent` in quarter units, as a quotient. -/
def spacing (exponent : Int) : Nat × Nat :=
  if 0 ≤ exponent then (Nat.pow 10 exponent.toNat * (4 * Binary64.unitsPerOne), 1)
  else (4 * Binary64.unitsPerOne, Nat.pow 10 (-exponent).toNat)

/-- The point of the grid `10 ^ exponent` that stands for the double, if one lies in its
    interval. -/
def onGrid? (tie : Tie) (units : Nat) (exponent : Int) : Option Nat :=
  let (n, d) := spacing exponent
  let below := 4 * units * d / n
  let above := below + 1
  let reals := interval units
  match reals.holds (below * n) d, reals.holds (above * n) d with
  | false, false => none
  | true, false => some below
  | false, true => some above
  | true, true =>
    let toBelow := 4 * units * d - below * n
    let toAbove := above * n - 4 * units * d
    if toBelow < toAbove then some below
    else if toAbove < toBelow then some above
    else match tie with
      | .upper => some above
      | .even => if below % 2 = 0 then some below else some above

/-- An exponent whose grid has at most its points zero and one at or below the double. -/
def coarsestExponent (units : Nat) : Int :=
  ((units.log2 : Int) - 1073) * 30103 / 100000 + 1

/-- Tries `grids` many grids, each ten times finer than the one before it; the point below the
    double on the grid after them stands in if none of them has a point in the interval. -/
def shortestFrom (tie : Tie) (units : Nat) : Nat → Int → Decimal
  | 0, exponent =>
    let (n, d) := spacing exponent
    ⟨4 * units * d / n, exponent⟩
  | grids + 1, exponent =>
    match onGrid? tie units exponent with
    | some digits => ⟨digits, exponent⟩
    | none => shortestFrom tie units grids (exponent - 1)

/-- The shortest decimal that rounds to a double of that many units. Seventeen digits always do, and
    the search starts at most two grids above the leading one. -/
def shortest (tie : Tie) (units : Nat) : Decimal :=
  if units = 0 then ⟨0, 0⟩ else shortestFrom tie units 19 (coarsestExponent units)

end Decimal

end CourseAdmission
