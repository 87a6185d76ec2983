import CourseAdmission.Word

/-!
Counts as texts: decimal digits, which may follow a plus sign, of a number that fits into 64 bits.
-/

namespace CourseAdmission.Text

/-- Why a text is no count. -/
inductive CountError where
  | empty
  | notADigit
  | tooLarge
  deriving DecidableEq

def CountError.message : CountError → String
  | .empty => "cannot parse integer from empty string"
  | .notADigit => "invalid digit found in string"
  | .tooLarge => "number too large to fit in target type"

/-- Reads digits behind those that gave `value`; of several faults the first one counts. -/
def readDigits (value : Nat) : List Char → Except CountError Nat
  | [] => .ok value
  | c :: cs =>
    if c.isDigit then
      let value := value * 10 + (c.toNat - '0'.toNat)
      if value < Word.limit 64 then readDigits value cs else .error .tooLarge
    else .error .notADigit

/-- The count that a text stands for. -/
def count (s : String) : Except CountError Nat :=
  match s.toList with
  | [] => .error .empty
  | ['+'] => .error .notADigit
  | '+' :: digits => readDigits 0 digits
  | digits => readDigits 0 digits

end CourseAdmission.Text
