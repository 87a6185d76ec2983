import CourseAdmission.Json.Token
import CourseAdmission.Json.Writer

/-!
Identifiers of 128 bits.
-/

namespace CourseAdmission

structure Uuid where
  bits : BitVec 128
  deriving DecidableEq

namespace Uuid

def nil : Uuid := ⟨0⟩

/-- The random identifier with these bits, six of which give way to the version and the variant. -/
def ofRandom (bits : BitVec 128) : Uuid :=
  let fixed : BitVec 128 := 0xf#128 <<< 76 ||| 0x3#128 <<< 62
  ⟨bits &&& ~~~fixed ||| 0x4#128 <<< 76 ||| 0x2#128 <<< 62⟩

/-- How many hexadecimal digits stand between the dashes. -/
def groups : List Nat := [8, 4, 4, 4, 12]

/-- The last `count` hexadecimal digits of a number. -/
def hexDigits (count n : Nat) : List Char :=
  ((List.range count).map fun i => Json.hexDigit (n >>> (4 * i) % 16)).reverse

/-- Cuts a row of digits into groups. -/
def cut : List Nat → List Char → List (List Char)
  | [], _ => []
  | width :: widths, cs => cs.take width :: cut widths (cs.drop width)

/-- The identifier in groups of small hexadecimal digits. -/
def toText (u : Uuid) : String :=
  "-".intercalate ((cut groups (hexDigits 32 u.bits.toNat)).map String.ofList)

/-- The value of 32 hexadecimal digits, and of nothing else. -/
def ofDigits? (cs : List Char) : Option Uuid := do
  let digits ← cs.mapM Json.Token.hexDigit?
  guard (digits.length = 32)
  return ⟨BitVec.ofNat 128 (digits.foldl (fun n d => n * 16 + d) 0)⟩

/-- Takes the dashes out of a text that has them between the groups, and nowhere else. -/
def withoutDashes? : List Nat → List Char → Option (List Char)
  | [], _ => none
  | [width], cs => if cs.length = width then some cs else none
  | width :: widths, cs =>
    match cs.drop width with
    | '-' :: others => (cs.take width ++ ·) <$> withoutDashes? widths others
    | _ => none

/-- The identifier in groups. -/
def ofGroups? (cs : List Char) : Option Uuid := do ofDigits? (← withoutDashes? groups cs)

/-- What stands in front of an identifier that is written as a name, in letters of any case. -/
def urnStart : List Char := "urn:uuid:".toList

/-- The identifier of a text: 32 digits, or groups, which may stand in braces or as a name. -/
def ofText? (text : String) : Option Uuid :=
  let cs := text.toList
  if cs.length = 32 then ofDigits? cs
  else if cs.length = 36 then ofGroups? cs
  else if cs.length = 38 ∧ cs.head? = some '\x7b' ∧ cs.getLast? = some '\x7d' then
    ofGroups? (cs.drop 1).dropLast
  else if cs.length = 45 ∧ (cs.take 9).map Char.toLower = urnStart then ofGroups? (cs.drop 9)
  else none

end Uuid

end CourseAdmission
