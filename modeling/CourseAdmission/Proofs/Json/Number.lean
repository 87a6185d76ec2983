import CourseAdmission.Json.Writer
import CourseAdmission.Proofs.Decimal.Shortest
import CourseAdmission.Proofs.Json.Numeral

/-!
Written numbers are spelled literals: integers as rows of digits, doubles with a point or an
exponent, so that they are not taken for integers.
-/

namespace CourseAdmission

open Decimal (Digits digits_toDigits digits_zeros leading_toDigits)

namespace Json

/-- The literal that an integer is written as. -/
def integerNumeral (n : Int) : Numeral := ⟨decide (n < 0), Nat.toDigits 10 n.natAbs, [], none⟩

/-- The literal that a double is written as: its shortest decimal, behind a sign. -/
def doubleNumeral (negative : Bool) (d : Decimal) : Numeral :=
  let digits := Nat.toDigits 10 d.digits
  if layout.positional d.leadingPlace then
    if 0 ≤ d.exponent then
      ⟨negative, digits ++ List.replicate d.exponent.toNat '0', ['0'], none⟩
    else
      let places := (-d.exponent).toNat
      if places < digits.length then
        ⟨negative, digits.take (digits.length - places), digits.drop (digits.length - places), none⟩
      else ⟨negative, ['0'], List.replicate (places - digits.length) '0' ++ digits, none⟩
  else
    ⟨negative, digits.take 1, digits.drop 1,
      some (decide (d.leadingPlace < 0), Nat.toDigits 10 d.leadingPlace.natAbs)⟩

theorem spelled_integerNumeral (n : Int) :
    (integerNumeral n).spelled = (writeNumber (.integer n)).toList := by
  have hrepr : writeNumber (.integer n) = Int.repr n := rfl
  rw [hrepr]
  cases n with
  | ofNat n => simp [Numeral.spelled, integerNumeral, Int.repr]
  | negSucc n => simp [Numeral.spelled, integerNumeral, Int.repr, Int.negSucc_lt_zero]

theorem wellFormed_integerNumeral (n : Int) : (integerNumeral n).WellFormed where
  whole := leading_toDigits n.natAbs
  fraction := by simp [integerNumeral, Digits]
  exponent := by simp [integerNumeral]

/-- An integer that fits into 64 bits is read as it was written. -/
theorem number_integerNumeral {n : Int} (hlow : -(Word.limit 63 : Nat) ≤ n)
    (hhigh : n < (Word.limit 64 : Nat)) : (integerNumeral n).number = .integer n := by
  have hinteger : (integerNumeral n).integer? = some n := by
    simp only [Numeral.integer?, integerNumeral, Decimal.ofDigits_toDigits, List.isEmpty_nil,
      Option.isNone_none, Bool.and_self, if_true, decide_eq_true_eq, Numeral.maxWord]
    split
    · rw [if_pos (by omega)]
      congr 1
      omega
    · rw [if_pos (by omega)]
      congr 1
      omega
  rw [Numeral.number, hinteger]

theorem toString_toList (n : Nat) : (toString n).toList = Nat.toDigits 10 n := by simp

theorem zeros_toList (n : Nat) : (zeros n).toList = List.replicate n '0' := by simp [zeros]

theorem spelled_doubleNumeral (negative : Bool) (d : Decimal) :
    (doubleNumeral negative d).spelled =
      (Binary64.signText negative ++ d.text layout).toList := by
  have hsign : (Binary64.signText negative).toList = if negative then ['-'] else [] := by
    cases negative <;> rfl
  rw [String.toList_append, hsign]
  unfold doubleNumeral Decimal.text
  dsimp only
  split
  case isTrue =>
    unfold Decimal.positionalText
    rw [toString_toList]
    dsimp only
    split
    · simp [Numeral.spelled, zeros_toList, layout]
    · split
      case isTrue hplaces =>
        have hne : ¬(Nat.toDigits 10 d.digits).length ≤
            (Nat.toDigits 10 d.digits).length - (-d.exponent).toNat := by
          omega
        simp [Numeral.spelled, List.drop_eq_nil_iff, hne]
      case isFalse hplaces => simp [Numeral.spelled, zeros_toList]
  case isFalse =>
    unfold Decimal.scientificText
    rw [toString_toList]
    have hmark : (if 0 ≤ d.leadingPlace then "+" else "-").toList =
        [if d.leadingPlace < 0 then '-' else '+'] := by
      by_cases hplace : 0 ≤ d.leadingPlace
      · rw [if_pos hplace, if_neg (by omega)]
        rfl
      · rw [if_neg hplace, if_pos (by omega)]
        rfl
    rcases hdigits : Nat.toDigits 10 d.digits with _ | ⟨c, _ | ⟨c', rest⟩⟩
    · exact absurd hdigits Nat.toDigits_ne_nil
    · simp [Numeral.spelled, hmark]
    · simp [Numeral.spelled, hmark]

theorem wellFormed_doubleNumeral (negative : Bool) {d : Decimal}
    (hdigits : 0 < d.digits ∨ d.exponent ≤ 0) : (doubleNumeral negative d).WellFormed := by
  have hall := digits_toDigits d.digits
  have hlead := leading_toDigits d.digits
  unfold doubleNumeral
  dsimp only
  split
  case isTrue =>
    split
    case isTrue hwhole =>
      refine ⟨?_, digits_zeros 1, by simp⟩
      by_cases hzero : Nat.toDigits 10 d.digits = ['0']
      · have hnone : d.digits = 0 := by
          rw [← Decimal.ofDigits_toDigits d.digits, hzero]
          rfl
        have hexponent : d.exponent.toNat = 0 := by omega
        rwa [hexponent, List.replicate_zero, List.append_nil]
      · exact hlead.append hzero (digits_zeros _)
    case isFalse =>
      split
      case isTrue hplaces => exact ⟨hlead.take (by omega), hall.drop _, by simp⟩
      case isFalse => exact ⟨.inl rfl, (digits_zeros _).append hall, by simp⟩
  case isFalse =>
    refine ⟨hlead.take Nat.one_pos, hall.drop 1, ?_⟩
    rintro _ _ ⟨⟩
    exact ⟨Nat.toDigits_ne_nil, digits_toDigits _⟩

/-- A written double is not taken for an integer. -/
theorem integer?_doubleNumeral (negative : Bool) (d : Decimal) :
    (doubleNumeral negative d).integer? = none := by
  have hlength := Nat.length_toDigits_pos (b := 10) (n := d.digits)
  unfold doubleNumeral Numeral.integer?
  dsimp only
  split
  · split
    · simp
    · split
      · rw [List.isEmpty_eq_false_iff.2]
        · simp
        · rw [Ne, List.drop_eq_nil_iff]
          omega
      · rw [List.isEmpty_eq_false_iff.2]
        · simp
        · simp
  · simp

end Json

namespace Document.Number

/-- A number that has a text: an integer or a finite double. -/
def isWritable : Number → Bool
  | .integer _ => true
  | .double x => x.isFinite
  | .outOfRange => false

/-- What the text of a number is read as. -/
def reread : Number → Number
  | .integer n => (Json.integerNumeral n).number
  | .double x => (Json.doubleNumeral x.isNegative (.shortest .even x.units)).number
  | .outOfRange => .outOfRange

end Document.Number

namespace Json

open Document (Number)

/-- The text of a number is the spelled literal of what it is read as. -/
theorem exists_numeral {n : Number} (hn : n.isWritable = true) :
    ∃ numeral : Numeral, numeral.WellFormed ∧ numeral.spelled = (writeNumber n).toList ∧
      numeral.number = n.reread := by
  cases n with
  | integer n => exact ⟨_, wellFormed_integerNumeral n, spelled_integerNumeral n, rfl⟩
  | double x =>
    cases x with
    | finite negative units onGrid bounded =>
      refine ⟨_, wellFormed_doubleNumeral negative ?_, spelled_doubleNumeral negative _, rfl⟩
      rcases Nat.eq_zero_or_pos units with rfl | hunits
      · exact .inr (le_refl 0)
      · exact .inl (Decimal.shortest_digits_pos .even hunits bounded)
    | nan => cases hn
    | infinite negative => cases hn
  | outOfRange => cases hn

theorem scan_writeNumber {n : Number} (hn : n.isWritable = true) {rest : List Char}
    (hrest : Ended rest) : Token.scan .between ((writeNumber n).toList ++ rest) =
      .number n.reread :: Token.scan .between rest := by
  obtain ⟨numeral, hnumeral, hspelled, hnumber⟩ := exists_numeral hn
  rw [← hspelled, ← hnumber]
  exact Token.scan_spelled hnumeral hrest

end Json

end CourseAdmission
