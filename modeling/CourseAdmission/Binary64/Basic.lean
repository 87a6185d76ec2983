import CourseAdmission.Binary64.Rounding
import CourseAdmission.Word

/-!
Binary64 numbers with exact arithmetic under every operation.

A finite number is a sign and a number of units on the grid, so two of them are the same double
exactly if they are equal here; zero keeps its sign, and all undefined results are one `nan`. Sums,
products and quotients are computed exactly and rounded once, to the nearest number on the grid with
ties to the even significand, and to an infinity from `unitLimit` on.
-/

namespace CourseAdmission

inductive Binary64 where
  | nan
  | infinite (negative : Bool)
  | finite (negative : Bool) (units : Nat) (onGrid : Binary64.OnGrid units)
      (bounded : units < Binary64.unitLimit)
  deriving DecidableEq

namespace Binary64

/-- The double nearest to `n / d` units, with the given sign. -/
def ofQuotient (negative : Bool) (n d : Nat) : Binary64 :=
  if h : roundUnits n d < unitLimit then .finite negative (roundUnits n d) (onGrid_roundUnits n d) h
  else .infinite negative

def zero : Binary64 := ofQuotient false 0 1

def ofNat (n : Nat) : Binary64 := ofQuotient false (n * unitsPerOne) 1

def ofInt (n : Int) : Binary64 := ofQuotient (decide (n < 0)) (n.natAbs * unitsPerOne) 1

/-- The power of ten `10 ^ n`, correctly rounded. -/
def powTen (n : Nat) : Binary64 := ofNat (Nat.pow 10 n)

instance : Inhabited Binary64 := ⟨zero⟩

instance (n : Nat) : OfNat Binary64 n := ⟨ofNat n⟩

def isFinite : Binary64 → Bool
  | .finite .. => true
  | _ => false

/-- The sign, which zeros and infinities carry too. -/
def isNegative : Binary64 → Bool
  | .nan => false
  | .infinite negative => negative
  | .finite negative .. => negative

/-- The distance from zero in units; meaningful for finite numbers only. -/
def units : Binary64 → Nat
  | .finite _ units .. => units
  | _ => 0

/-- The exact value in units; meaningful for finite numbers only. -/
def signedUnits : Binary64 → Int
  | .finite true units .. => -(units : Int)
  | .finite false units .. => units
  | _ => 0

def neg : Binary64 → Binary64
  | .nan => .nan
  | .infinite negative => .infinite !negative
  | .finite negative units onGrid bounded => .finite (!negative) units onGrid bounded

def abs : Binary64 → Binary64
  | .nan => .nan
  | .infinite _ => .infinite false
  | .finite _ units onGrid bounded => .finite false units onGrid bounded

/-- An exact sum of zero is negative only if both operands are negative zeros. -/
def add : Binary64 → Binary64 → Binary64
  | .nan, _ => .nan
  | _, .nan => .nan
  | .infinite a, .infinite b => if a = b then .infinite a else .nan
  | .infinite a, .finite .. => .infinite a
  | .finite .., .infinite b => .infinite b
  | x@(.finite a ..), y@(.finite b ..) =>
    let sum := x.signedUnits + y.signedUnits
    ofQuotient (if sum = 0 then a && b else decide (sum < 0)) sum.natAbs 1

def sub (x y : Binary64) : Binary64 := add x (neg y)

def mul : Binary64 → Binary64 → Binary64
  | .nan, _ => .nan
  | _, .nan => .nan
  | .infinite a, .infinite b => .infinite (a != b)
  | .infinite a, .finite b units .. => if units = 0 then .nan else .infinite (a != b)
  | .finite a units .., .infinite b => if units = 0 then .nan else .infinite (a != b)
  | .finite a m .., .finite b n .. => ofQuotient (a != b) (m * n) unitsPerOne

def div : Binary64 → Binary64 → Binary64
  | .nan, _ => .nan
  | _, .nan => .nan
  | .infinite _, .infinite _ => .nan
  | .infinite a, .finite b .. => .infinite (a != b)
  | .finite a .., .infinite b => ofQuotient (a != b) 0 1
  | .finite a m .., .finite b n .. =>
    if n = 0 then if m = 0 then .nan else .infinite (a != b)
    else ofQuotient (a != b) (m * unitsPerOne) n

instance : Neg Binary64 := ⟨neg⟩
instance : Add Binary64 := ⟨add⟩
instance : Sub Binary64 := ⟨sub⟩
instance : Mul Binary64 := ⟨mul⟩
instance : Div Binary64 := ⟨div⟩

/-- Order of the values: the two zeros are alike, and nothing is comparable to `nan`. -/
def lt : Binary64 → Binary64 → Bool
  | .nan, _ => false
  | _, .nan => false
  | .infinite a, .infinite b => a && !b
  | .infinite a, .finite .. => a
  | .finite .., .infinite b => !b
  | x@(.finite ..), y@(.finite ..) => decide (x.signedUnits < y.signedUnits)

/-- Equality of the values, as the comparison of two numbers decides it: the two zeros are equal,
    `nan` equals nothing. -/
def same : Binary64 → Binary64 → Bool
  | .nan, _ => false
  | _, .nan => false
  | .infinite a, .infinite b => a == b
  | .infinite _, .finite .. => false
  | .finite .., .infinite _ => false
  | x@(.finite ..), y@(.finite ..) => decide (x.signedUnits = y.signedUnits)

def le (x y : Binary64) : Bool := lt x y || same x y

/-- Comparison of records compares their numbers by value. -/
instance : BEq Binary64 := ⟨same⟩

instance : LT Binary64 := ⟨fun x y => lt x y = true⟩
instance : LE Binary64 := ⟨fun x y => le x y = true⟩

instance (x y : Binary64) : Decidable (x < y) := inferInstanceAs (Decidable (lt x y = true))
instance (x y : Binary64) : Decidable (x ≤ y) := inferInstanceAs (Decidable (le x y = true))

/-- Rounds the distance from zero to a whole number by `whole`, which gets it as a quotient; the
    sign is kept, also that of a zero. -/
def toWhole (whole : Nat → Nat → Nat) : Binary64 → Binary64
  | .finite negative units .. => ofQuotient negative (whole units unitsPerOne * unitsPerOne) 1
  | x => x

/-- The greatest whole number not above. -/
def floor (x : Binary64) : Binary64 :=
  x.toWhole fun n d => if x.isNegative then (n + d - 1) / d else n / d

/-- The least whole number not below. -/
def ceil (x : Binary64) : Binary64 :=
  x.toWhole fun n d => if x.isNegative then n / d else (n + d - 1) / d

/-- The nearest whole number, a half going away from zero. -/
def nearest (x : Binary64) : Binary64 :=
  x.toWhole fun n d => (2 * n + d) / (2 * d)

/-- The whole part as a 64-bit count: nothing below zero, at most the greatest count, and zero for
    `nan`. -/
def toCount : Binary64 → Nat
  | .finite false units .. => min (units / unitsPerOne) (Word.limit 64 - 1)
  | .infinite false => Word.limit 64 - 1
  | _ => 0

/-- The double nearest to `± digits * 10 ^ exponent`. From `10 ^ 400` on and below `10 ^ (-400)` the
    result is an infinity or a zero whatever the digits, and the power is not computed. -/
def ofDecimal (negative : Bool) (digits : Nat) (exponent : Int) : Binary64 :=
  if digits = 0 then ofQuotient negative 0 1
  else if exponent + (digits.log2 * 3 / 10 : Nat) > 400 then .infinite negative
  else if exponent + (digits.log2 / 3 + 1 : Nat) < -400 then ofQuotient negative 0 1
  else if 0 ≤ exponent then ofQuotient negative (digits * Nat.pow 10 exponent.toNat * unitsPerOne) 1
  else ofQuotient negative (digits * unitsPerOne) (Nat.pow 10 (-exponent).toNat)

end Binary64

end CourseAdmission
