import CourseAdmission.Decimal.Shortest

/-!
Numbers as text.

A `Layout` holds the decisions that a format leaves open once the digits are known; `plain` is the
one of messages and tables. `Binary64.toFixed` writes a fixed number of decimal places, rounded from
the exact value.
-/

namespace CourseAdmission

/-- A text of `n` zeros. -/
def zeros (n : Nat) : String := String.ofList (List.replicate n '0')

namespace Decimal

structure Layout where
  /-- Which of two equally near decimals is written. -/
  tie : Decimal.Tie
  /-- The places of the leading digit that are written without an exponent, zero being the ones. -/
  positional : Int → Bool
  /-- What follows a whole number written without an exponent. -/
  afterWhole : String

/-- The place of the leading digit. -/
def leadingPlace (d : Decimal) : Int := (toString d.digits).length - 1 + d.exponent

/-- All digits in their places, with a decimal point if some are behind it. -/
def positionalText (d : Decimal) (afterWhole : String) : String :=
  let digits := (toString d.digits).toList
  if 0 ≤ d.exponent then String.ofList digits ++ zeros d.exponent.toNat ++ afterWhole
  else
    let places := (-d.exponent).toNat
    if places < digits.length then
      String.ofList (digits.take (digits.length - places)) ++ "." ++
        String.ofList (digits.drop (digits.length - places))
    else "0." ++ zeros (places - digits.length) ++ String.ofList digits

/-- One digit before the point and a signed exponent. -/
def scientificText (d : Decimal) : String :=
  let mantissa := match (toString d.digits).toList with
    | [] => ""
    | [c] => c.toString
    | c :: rest => c.toString ++ "." ++ String.ofList rest
  let place := d.leadingPlace
  mantissa ++ "e" ++ (if 0 ≤ place then "+" else "-") ++ toString place.natAbs

def text (layout : Layout) (d : Decimal) : String :=
  if layout.positional d.leadingPlace then d.positionalText layout.afterWhole else d.scientificText

/-- Numbers in messages and tables: the shortest digits, never an exponent, nothing after a whole
    number. -/
def plain : Layout := ⟨.upper, fun _ => true, ""⟩

end Decimal

namespace Binary64

def signText (negative : Bool) : String := if negative then "-" else ""

def write (layout : Decimal.Layout) : Binary64 → String
  | .nan => "NaN"
  | .infinite negative => signText negative ++ "inf"
  | .finite negative units .. =>
    signText negative ++ (Decimal.shortest layout.tie units).text layout

/-- The number in a message. -/
def toText (x : Binary64) : String := x.write Decimal.plain

/-- `places` many decimal places of the exact value, a tie going to the even digit. -/
def toFixed (places : Nat) : Binary64 → String
  | .nan => "NaN"
  | .infinite negative => signText negative ++ "inf"
  | .finite negative units .. =>
    let scale := Nat.pow 10 places
    let scaled := nearestEven (units * scale) unitsPerOne
    let fraction := toString (scaled % scale)
    signText negative ++ toString (scaled / scale) ++
      (if places = 0 then "" else "." ++ zeros (places - fraction.length) ++ fraction)

end Binary64

end CourseAdmission
