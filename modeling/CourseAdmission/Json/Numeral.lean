import CourseAdmission.Decimal.Literal
import CourseAdmission.Document.Basic

/-!
Number literals of JSON and the numbers that they stand for.

A literal without fraction and exponent is an integer while it fits into 64 bits. Any other is read
as a double by the format's quick rule: as many leading digits as fit into 64 bits are converted,
and the result is multiplied or divided by a power of ten, with a rounding in each step. Up to 15
digits and small powers this is the nearest double; beyond, it may be a neighbour of it.
-/

namespace CourseAdmission.Json

/-- A literal in its parts. -/
structure Numeral where
  negative : Bool
  /-- The digits before the point. -/
  whole : List Char
  /-- The digits after the point, none without a point. -/
  fraction : List Char
  /-- The sign and the digits of the exponent. -/
  exponent : Option (Bool × List Char)
  deriving DecidableEq

namespace Numeral

/-- The greatest number of 64 bits. -/
def maxWord : Nat := Word.limit 64 - 1

/-- Appends digits to a number while it fits into 64 bits; also gives the digits left over. -/
def gather (n : Nat) : List Char → Nat × List Char
  | [] => (n, [])
  | c :: cs =>
    let next := n * 10 + (c.toNat - '0'.toNat)
    if next ≤ maxWord then gather next cs else (n, c :: cs)

/-- The leading digits that fit into 64 bits, and the power of ten that belongs to them. Digits of
    the whole part that do not fit count as zeros, those of the fraction are left out. -/
def leading (n : Numeral) : Nat × Int :=
  let (significand, zeros) := gather 0 n.whole
  let (significand, dropped) := gather significand n.fraction
  (significand, (zeros.length : Int) - (n.fraction.length - dropped.length : Nat))

/-- The greatest power of ten among the doubles. -/
def maxPower : Nat := 308

/-- Divides by a power of ten, in two steps if it is beyond the doubles. No significand of 64 bits
    survives a third. -/
def shrink (x : Binary64) (power : Nat) : Binary64 :=
  if power ≤ maxPower then x / .powTen power
  else if power ≤ 2 * maxPower then x / .powTen maxPower / .powTen (power - maxPower)
  else 0

/-- The double of a significand and a power of ten, unless it is beyond the finite numbers. -/
def scale (significand : Nat) (power : Int) : Option Binary64 :=
  let x := Binary64.ofNat significand
  if power < 0 then some (shrink x power.natAbs)
  else if significand = 0 then some x
  else if power ≤ maxPower then
    let product := x * .powTen power.natAbs
    if product.isFinite then some product else none
  else none

/-- The literal's absolute value as a double, unless it is beyond the finite numbers. An exponent of
    more than 31 bits decides alone. -/
def magnitude (n : Numeral) : Option Binary64 :=
  let (significand, power) := n.leading
  match n.exponent with
  | none => scale significand power
  | some (negative, digits) =>
    let exponent := Decimal.ofDigits digits
    if Word.limit 31 ≤ exponent then
      if negative ∨ significand = 0 then some 0 else none
    else scale significand (if negative then power - exponent else power + exponent)

/-- An integer literal that fits into 64 bits, with a sign into 63 bits and a sign. A negative zero
    is none, for integers have no such number. -/
def integer? (n : Numeral) : Option Int :=
  if n.fraction.isEmpty && n.exponent.isNone then
    let value := Decimal.ofDigits n.whole
    if n.negative then
      if 0 < value ∧ value ≤ Word.limit 63 then some (-(value : Int)) else none
    else if value ≤ maxWord then some value else none
  else none

def number (n : Numeral) : Document.Number :=
  match n.integer? with
  | some value => .integer value
  | none =>
    match n.magnitude with
    | some x => .double (if n.negative then -x else x)
    | none => .outOfRange

/-- How far a literal has been read, character by character. -/
inductive Stage where
  | sign
  | leadingZero
  | whole
  | point
  | fraction
  | mark
  | exponentSign
  | exponent
  deriving DecidableEq

/-- A literal in the making; its digits are held with the last one first. -/
structure Draft where
  stage : Stage
  negative : Bool
  whole : List Char
  fraction : List Char
  exponentNegative : Bool
  exponent : List Char

namespace Draft

/-- The draft of a literal that begins with this character. -/
def start? (c : Char) : Option Draft :=
  if c = '-' then some ⟨.sign, true, [], [], false, []⟩
  else if c = '0' then some ⟨.leadingZero, false, [c], [], false, []⟩
  else if c.isDigit then some ⟨.whole, false, [c], [], false, []⟩
  else none

/-- The draft after one more character, if the character belongs to the literal. -/
def next? (d : Draft) (c : Char) : Option Draft :=
  let isMark := c = 'e' ∨ c = 'E'
  match d.stage with
  | .sign =>
    if c = '0' then some { d with stage := .leadingZero, whole := [c] }
    else if c.isDigit then some { d with stage := .whole, whole := [c] }
    else none
  | .leadingZero =>
    if c = '.' then some { d with stage := .point }
    else if isMark then some { d with stage := .mark }
    else none
  | .whole =>
    if c.isDigit then some { d with whole := c :: d.whole }
    else if c = '.' then some { d with stage := .point }
    else if isMark then some { d with stage := .mark }
    else none
  | .point => if c.isDigit then some { d with stage := .fraction, fraction := [c] } else none
  | .fraction =>
    if c.isDigit then some { d with fraction := c :: d.fraction }
    else if isMark then some { d with stage := .mark }
    else none
  | .mark =>
    if c = '+' then some { d with stage := .exponentSign }
    else if c = '-' then some { d with stage := .exponentSign, exponentNegative := true }
    else if c.isDigit then some { d with stage := .exponent, exponent := [c] }
    else none
  | .exponentSign => if c.isDigit then some { d with stage := .exponent, exponent := [c] } else none
  | .exponent => if c.isDigit then some { d with exponent := c :: d.exponent } else none

/-- The literal, if the draft may end here. -/
def finish? (d : Draft) : Option Numeral :=
  match d.stage with
  | .leadingZero | .whole | .fraction =>
    some ⟨d.negative, d.whole.reverse, d.fraction.reverse, none⟩
  | .exponent =>
    some ⟨d.negative, d.whole.reverse, d.fraction.reverse,
      some (d.exponentNegative, d.exponent.reverse)⟩
  | _ => none

end Draft

end Numeral

end CourseAdmission.Json
