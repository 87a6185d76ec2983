import CourseAdmission.Binary64.Basic

/-!
Reading decimal text that stands alone, as an argument or a setting.

A number is an optional sign, digits with an optional point among or beside them, and an optional
exponent; or one of the words `inf`, `infinity` and `nan` in any case. The double nearest to the
exact value is taken, a tie going to the even significand.
-/

namespace CourseAdmission

namespace Decimal

/-- The value of a row of decimal digits. -/
def ofDigits (digits : List Char) : Nat :=
  digits.foldl (fun n c => n * 10 + (c.toNat - '0'.toNat)) 0

/-- Splits off the longest row of decimal digits at the front. -/
def spanDigits (cs : List Char) : List Char × List Char :=
  (cs.takeWhile Char.isDigit, cs.dropWhile Char.isDigit)

/-- Splits off a sign; `true` is a minus. -/
def spanSign : List Char → Bool × List Char
  | '-' :: rest => (true, rest)
  | '+' :: rest => (false, rest)
  | rest => (false, rest)

/-- A signed whole number that takes the whole text. -/
def wholeNumber? (cs : List Char) : Option Int :=
  let (negative, rest) := spanSign cs
  if rest.isEmpty || !rest.all Char.isDigit then none
  else some (if negative then -(ofDigits rest : Int) else ofDigits rest)

/-- The exponent behind a mark `e` or `E`; nothing stands for zero. -/
def exponent? : List Char → Option Int
  | [] => some 0
  | c :: rest => if c = 'e' ∨ c = 'E' then wholeNumber? rest else none

end Decimal

open Decimal in
/-- The double written as decimal text. -/
def Binary64.ofText? (text : String) : Option Binary64 :=
  let (negative, rest) := spanSign text.toList
  match String.ofList (rest.map Char.toLower) with
  | "inf" => some (.infinite negative)
  | "infinity" => some (.infinite negative)
  | "nan" => some .nan
  | _ =>
    let (whole, rest) := spanDigits rest
    let (fraction, rest) := match rest with
      | '.' :: rest => spanDigits rest
      | rest => ([], rest)
    if whole.isEmpty && fraction.isEmpty then none
    else (exponent? rest).map fun exponent =>
      .ofDecimal negative (ofDigits (whole ++ fraction)) (exponent - fraction.length)

end CourseAdmission
