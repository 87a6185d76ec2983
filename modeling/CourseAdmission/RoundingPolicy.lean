import CourseAdmission.Decimal.Layout

/-!
How a percentage is rounded before it is compared with a threshold.
-/

namespace CourseAdmission

inductive RoundingPolicy where
  /-- The value as it is. -/
  | none
  /-- The least whole number not below. -/
  | up
  /-- The greatest whole number not above. -/
  | down
  /-- A number of decimal places, a half going away from zero. -/
  | decimals (places : Nat)
  deriving DecidableEq, Repr, Inhabited

namespace RoundingPolicy

/-- The greatest number of decimal places that criteria may ask for. -/
def maxPlaces : Nat := 10

/-- Scaled values are first taken to this many decimal places, so that a decimal tie that binary
    cannot hold, as in `1.005`, is rounded as it is written. -/
def tiePlaces : Nat := 9

def tag : RoundingPolicy → String
  | .none => "NONE"
  | .up => "UP_NEAREST_INTEGER"
  | .down => "DOWN_NEAREST_INTEGER"
  | .decimals _ => "DECIMALS"

def describe : RoundingPolicy → String
  | .none => "no rounding"
  | .up => "rounded up to integer"
  | .down => "rounded down to integer"
  | .decimals places => "rounded to " ++ toString places ++ " decimal(s)"

/-- Rounds to decimal places, a half away from zero. A value too great for the intermediate scale is
    left alone. -/
def roundPlaces (places : Nat) (value : Binary64) : Binary64 :=
  let factor := Binary64.powTen (min places maxPlaces)
  let tieFactor := Binary64.powTen tiePlaces
  let steadied := (value * factor * tieFactor).nearest / tieFactor
  if steadied.isFinite then steadied.nearest / factor else value

def apply : RoundingPolicy → Binary64 → Binary64
  | .none, value => value
  | .up, value => value.ceil
  | .down, value => value.floor
  | .decimals places, value => roundPlaces places value

/-- Policies that criteria may ask for. -/
def Allowed : RoundingPolicy → Prop
  | .decimals places => places ≤ maxPlaces
  | _ => True

instance : DecidablePred Allowed
  | .none => inferInstanceAs (Decidable True)
  | .up => inferInstanceAs (Decidable True)
  | .down => inferInstanceAs (Decidable True)
  | .decimals places => inferInstanceAs (Decidable (places ≤ maxPlaces))

end RoundingPolicy

end CourseAdmission
