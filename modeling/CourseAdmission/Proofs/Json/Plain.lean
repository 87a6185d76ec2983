import CourseAdmission.Proofs.Decimal.Plain
import CourseAdmission.Proofs.Json.FewDigits

/-!
Numbers without an exponent in JSON.
-/

namespace CourseAdmission

open Json

namespace PlainNumber

variable {n : PlainNumber}

/-- The literal of the number. -/
def numeral (n : PlainNumber) : Numeral := ⟨n.negative, n.whole, n.fraction, none⟩

theorem wellFormed_numeral : n.numeral.WellFormed where
  whole := leading_whole
  fraction := digits_fraction
  exponent := nofun

theorem spelled_numeral : n.numeral.spelled = n.text := by
  have hfraction : (if n.fraction = [] then [] else '.' :: n.fraction) = n.fractionText :=
    ite_congr (propext fraction_eq_nil_iff) (fun _ => rfl) fun _ => rfl
  change n.signText ++ n.whole ++ (if n.fraction = [] then [] else '.' :: n.fraction) ++ [] = _
  rw [hfraction, List.append_nil, List.append_assoc, text]

/-- An integer in range that is no negative zero is read as an integer. -/
theorem number_numeral_of_whole (hplaces : n.places = 0) (hrange : n.InRange)
    (hzero : n.negative = true → n.digits ≠ 0) : n.numeral.number = .integer n.integer := by
  have hlimit : (10 : Nat) ^ 15 < Word.limit 63 := by decide
  have hwords : Word.limit 64 = 2 * Word.limit 63 := rfl
  have hinteger : n.numeral.integer? = some n.integer := by
    simp only [InRange, integer] at hrange
    simp only [Numeral.integer?, numeral, fraction_eq_nil_iff.2 hplaces, ofDigits_whole hplaces,
      List.isEmpty_nil, Option.isNone_none, Bool.and_self, if_true, Numeral.maxWord, integer]
    split
    case isTrue hnegative =>
      have hpos := hzero hnegative
      rw [if_pos hnegative] at hrange
      exact if_pos (by omega)
    case isFalse hnegative =>
      rw [if_neg hnegative] at hrange
      exact if_pos (by omega)
  rw [Numeral.number, hinteger]

theorem magnitude_numeral (hdigits : n.digits < 10 ^ 15) :
    n.numeral.magnitude = Numeral.scale n.digits (-n.places) :=
  magnitude_eq rfl ofDigits_whole_append_fraction (hdigits.le.trans (by decide))
    (by rw [numeral, length_fraction, Int.neg_neg])

/-- A negative zero is read as a double. -/
theorem number_numeral_of_zero (hplaces : n.places = 0) (hnegative : n.negative = true)
    (hdigits : n.digits = 0) : n.numeral.number = .double (-.ofNat 0) := by
  have hinteger : n.numeral.integer? = none := by
    simp [Numeral.integer?, numeral, fraction_eq_nil_iff.2 hplaces, ofDigits_whole hplaces,
      hnegative, hdigits]
  rw [Numeral.number_eq hinteger, magnitude_numeral (by omega), hplaces, hdigits]
  simp [Numeral.scale, numeral, hnegative]

/-- A number with a point is read as its nearest double. -/
theorem number_numeral_of_places (hplaces : n.places ≠ 0) (hrange : n.InRange) :
    n.numeral.number = .double n.toDouble := by
  obtain ⟨hdigits, hfew⟩ := hrange.resolve_left fun h => hplaces h.1
  have hinteger : n.numeral.integer? = none := by
    simp [Numeral.integer?, numeral, fraction_eq_nil_iff, hplaces]
  rw [Numeral.number_eq hinteger, magnitude_numeral hdigits,
    scale_exact hdigits (Nat.pos_of_ne_zero hplaces) (by omega)]
  have hsign : n.numeral.negative = n.negative := rfl
  rw [Option.elim_some, toDouble]
  cases hnegative : n.negative with
  | false => rw [hsign, hnegative, if_neg Bool.false_ne_true]
  | true => rw [hsign, hnegative, if_pos rfl, Binary64.neg_ofDecimal]

end PlainNumber

end CourseAdmission
