import CourseAdmission.Proofs.Binary64.Quotient
import CourseAdmission.Proofs.Decimal.Digits

/-!
Decimal numbers that are written without an exponent.
-/

namespace CourseAdmission

open Decimal

namespace Binary64

theorem neg_ofDecimal (digits : Nat) (exponent : Int) :
    -ofDecimal false digits exponent = ofDecimal true digits exponent := by
  unfold ofDecimal
  split
  · exact neg_ofQuotient false _ _
  split
  · rfl
  split
  · exact neg_ofQuotient false _ _
  split
  · exact neg_ofQuotient false _ _
  · exact neg_ofQuotient false _ _

/-- The double of a decimal of few digits is a quotient rounded once. -/
theorem ofDecimal_eq (negative : Bool) {digits places : Nat} (hdigits : digits < 10 ^ 15)
    (hplaces : places ≤ 22) : ofDecimal negative digits (-places) =
      ofQuotient negative (digits * unitsPerOne) (10 ^ places) := by
  unfold ofDecimal
  by_cases hzero : digits = 0
  · rw [if_pos hzero, hzero, Nat.zero_mul]
    exact ofQuotient_congr negative (by simp only [roundUnits_zero])
  · have hlog : digits.log2 < 50 :=
      (Nat.log2_lt hzero).2 (hdigits.trans_le (by decide : 10 ^ 15 ≤ 2 ^ 50))
    rw [if_neg hzero, if_neg (by omega), if_neg (by omega)]
    split
    case isTrue hwhole =>
      obtain rfl : places = 0 := by omega
      simp
    case isFalse => simp

/-- As it is read, it is that quotient in units, with the sign that was written. -/
theorem units_ofDecimal (negative : Bool) {digits places : Nat} (hdigits : digits < 10 ^ 15)
    (hplaces : places ≤ 22) : (ofDecimal negative digits (-places)).isFinite ∧
      (ofDecimal negative digits (-places)).isNegative = negative ∧
      (ofDecimal negative digits (-places)).units =
        roundUnits (digits * unitsPerOne) (10 ^ places) := by
  have hlimit : digits ≤ significandLimit := hdigits.le.trans (by decide)
  have hten : 0 < 10 ^ places := Nat.pow_pos (by decide)
  have hround := roundUnits_le_of_le (onGrid_mul_unitsPerOne hlimit) hten
    (Nat.le_mul_of_pos_right (digits * unitsPerOne) hten)
  rw [ofDecimal_eq negative hdigits hplaces]
  exact ofQuotient_spec negative (hround.trans_lt (mul_unitsPerOne_lt hlimit))

theorem isFinite_ofDecimal (negative : Bool) {digits places : Nat} (hdigits : digits < 10 ^ 15)
    (hplaces : places ≤ 22) : (ofDecimal negative digits (-places)).isFinite = true :=
  (units_ofDecimal negative hdigits hplaces).1

end Binary64

/-- A sign, and digits of which so many stand behind the point. -/
structure PlainNumber where
  negative : Bool
  digits : Nat
  places : Nat
  deriving DecidableEq

namespace PlainNumber

variable (n : PlainNumber)

/-- The digits before the point; a zero if there are no others. -/
def whole : List Char := Nat.toDigits 10 (n.digits / 10 ^ n.places)

/-- The digits behind the point. -/
def fraction : List Char :=
  if n.places = 0 then [] else paddedDigits n.places (n.digits % 10 ^ n.places)

/-- The point and the digits behind it, if there are any. -/
def fractionText : List Char := if n.places = 0 then [] else '.' :: n.fraction

def signText : List Char := if n.negative then ['-'] else []

def text : List Char := n.signText ++ (n.whole ++ n.fractionText)

/-- The integer of the digits and the sign. -/
def integer : Int := if n.negative then -(n.digits : Int) else n.digits

/-- The integer with its sign and without a point. -/
def ofInt (k : Int) : PlainNumber := ⟨decide (k < 0), k.natAbs, 0⟩

/-- The double nearest to the number. -/
def toDouble : Binary64 := .ofDecimal n.negative n.digits (-n.places)

/-- A number that both formats can write: an integer of 64 bits, or one of at most 15 digits, with
    at most 20 places behind the point. Zeros at the front are not counted, zeros at the end are. -/
def InRange : Prop :=
  (n.places = 0 ∧ -(Word.limit 63 : Nat) ≤ n.integer ∧ n.integer < (Word.limit 63 : Nat)) ∨
    (n.digits < 10 ^ 15 ∧ n.places ≤ 20)

variable {n}

theorem integer_ofInt (k : Int) : (ofInt k).integer = k := by
  simp only [integer, ofInt, decide_eq_true_eq]
  split <;> omega

theorem digits_fraction : Digits n.fraction := by
  unfold fraction
  split
  · exact List.forall_mem_nil _
  · exact digits_paddedDigits _ _

theorem length_fraction : n.fraction.length = n.places := by
  unfold fraction
  split
  case isTrue hplaces => rw [hplaces, List.length_nil]
  case isFalse hplaces =>
    exact length_paddedDigits (Nat.pos_of_ne_zero hplaces)
      (Nat.mod_lt _ (Nat.pow_pos (by decide)))

theorem ofDigits_fraction : ofDigits n.fraction = n.digits % 10 ^ n.places := by
  unfold fraction
  split
  case isTrue hplaces => rw [hplaces, Nat.pow_zero, Nat.mod_one]; rfl
  case isFalse => exact ofDigits_paddedDigits _ _

/-- All digits together are those of the number. -/
theorem ofDigits_whole_append_fraction : ofDigits (n.whole ++ n.fraction) = n.digits := by
  rw [ofDigits_append, length_fraction, ofDigits_fraction, whole, ofDigits_toDigits,
    Nat.mul_comm, Nat.div_add_mod]

theorem ofDigits_whole (hplaces : n.places = 0) : ofDigits n.whole = n.digits := by
  rw [whole, hplaces, Nat.pow_zero, Nat.div_one, ofDigits_toDigits]

theorem leading_whole : Leading n.whole := leading_toDigits _

theorem digits_whole : Digits n.whole := digits_toDigits _

theorem exists_whole_eq_cons : ∃ c cs, n.whole = c :: cs ∧ c.isDigit = true := by
  have hsome : n.whole ≠ [] := Nat.toDigits_ne_nil
  obtain ⟨c, cs, hwhole⟩ := List.exists_cons_of_ne_nil hsome
  have hdigits : Digits n.whole := digits_whole
  exact ⟨c, cs, hwhole, hdigits c (by simp [hwhole])⟩

theorem fraction_eq_nil_iff : n.fraction = [] ↔ n.places = 0 := by
  rw [← length_fraction (n := n), List.length_eq_zero_iff]

end PlainNumber

end CourseAdmission
