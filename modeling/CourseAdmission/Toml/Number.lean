import CourseAdmission.Decimal.Literal
import CourseAdmission.Document.Encoder
import CourseAdmission.Json.Token
import CourseAdmission.Time.Calendar
import CourseAdmission.Toml.Scanner

/-!
Numbers and dates of TOML.
-/

namespace CourseAdmission.Toml

open Scanner Document

/-- Digits of a base, with single underscores between them; the underscores are left out. -/
def digits (isDigit : Char → Bool) : Scanner (List Char) := do
  let first ← satisfy isDigit
  let others ← many (satisfy isDigit <|> (do char '_'; satisfy isDigit))
  return first :: others

/-- A sign; `true` is a minus. -/
def sign : Scanner Bool := do
  match ← optional (satisfy fun c => c == '+' || c == '-') with
  | some c => return c == '-'
  | none => return false

/-- Decimal digits without a leading zero, or a single zero. -/
def decimalDigits : Scanner (List Char) := do
  match ← peek with
  | some '0' => do char '0'; return ['0']
  | _ => digits Char.isDigit

/-- An integer of 64 bits. -/
def integer64 (n : Int) : Scanner Node := do
  guard (decide (-(Word.limit 63 : Nat) ≤ n ∧ n < (Word.limit 63 : Nat)))
  return .number (.integer n)

/-- The value of digits in a base. -/
def valueIn (base : Nat) (ds : List Char) : Nat :=
  ds.foldl (fun n c => n * base + (Json.Token.hexDigit? c).getD 0) 0

def isHexDigit (c : Char) : Bool := (Json.Token.hexDigit? c).isSome

def basedInteger : Scanner Node :=
  (do word ['0', 'x']; integer64 (valueIn 16 (← digits isHexDigit))) <|>
  (do word ['0', 'o']; integer64 (valueIn 8 (← digits fun c => '0' ≤ c && c ≤ '7'))) <|>
  (do word ['0', 'b']; integer64 (valueIn 2 (← digits fun c => c == '0' || c == '1')))

def decimalInteger : Scanner Node := do
  let negative ← sign
  let value := Decimal.ofDigits (← decimalDigits)
  integer64 (if negative then -(value : Int) else value)

/-- The mark, the sign and the digits of an exponent. -/
def exponentPart : Scanner Int := do
  discard (satisfy fun c => c == 'e' || c == 'E')
  let negative ← sign
  let value := Decimal.ofDigits (← digits Char.isDigit)
  return if negative then -(value : Int) else value

/-- A number with a fraction or an exponent. Beyond the greatest finite number there is none; beyond
    the least one it is negative infinity. -/
def float : Scanner Node := do
  let negative ← sign
  let whole ← decimalDigits
  let fraction ← optional (do char '.'; digits Char.isDigit)
  let exponent ← if fraction.isSome then optional exponentPart else some <$> exponentPart
  let fraction := fraction.getD []
  let value := Binary64.ofDecimal negative (Decimal.ofDigits (whole ++ fraction))
    (exponent.getD 0 - fraction.length)
  guard (value != .infinite false)
  return .number (.double value)

def specialFloat : Scanner Node := do
  let negative ← sign
  (do word ['i', 'n', 'f']; return .number (.double (.infinite negative))) <|>
    (do word ['n', 'a', 'n']; return .number (.double .nan))

/-- A number of exactly so many digits, from `low` to `high`. -/
def fixedNumber (count low high : Nat) : Scanner Nat := do
  let cs ← get
  let ds := cs.take count
  guard (ds.length == count && ds.all Char.isDigit)
  let value := Decimal.ofDigits ds
  guard (decide (low ≤ value ∧ value ≤ high))
  set (cs.drop count)
  return value

def date : Scanner Unit := do
  let year ← fixedNumber 4 0 9999
  char '-'
  let month ← fixedNumber 2 1 12
  char '-'
  discard (fixedNumber 2 1 (Calendar.daysInMonth year month))

def time : Scanner Unit := do
  discard (fixedNumber 2 0 23)
  char ':'
  discard (fixedNumber 2 0 59)
  char ':'
  discard (fixedNumber 2 0 60)
  discard (optional (do char '.'; takeWhile1 Char.isDigit))

def timeOffset : Scanner Unit :=
  discard (satisfy fun c => c == 'Z' || c == 'z') <|>
  (do
    discard (satisfy fun c => c == '+' || c == '-')
    discard (fixedNumber 2 0 23)
    char ':'
    discard (fixedNumber 2 0 59))

/-- The name under which a date stands in a document. -/
def dateName : String := "$__toml_private_datetime"

/-- A date, a time, or both. Nothing reads dates, so a date is an object with its text under a name
    of its own. -/
def dateTime : Scanner Node := do
  let before ← get
  (do
    date
    discard (optional (do
      discard (satisfy fun c => c == 'T' || c == 't' || c == ' ')
      time
      discard (optional timeOffset)))) <|> time
  let after ← get
  let text := String.ofList (before.take (before.length - after.length))
  return .ofMembers [(dateName, .ofText text)]

/-- A value that begins with a digit, a sign, or one of the words for special numbers. -/
def number : Scanner Node :=
  dateTime <|> float <|> specialFloat <|> basedInteger <|> decimalInteger

end CourseAdmission.Toml
