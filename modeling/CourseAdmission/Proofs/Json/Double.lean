import CourseAdmission.Proofs.Json.Number

/-!
What written doubles are read as: the digits of the shortest decimal as one number, scaled by a
power of ten.
-/

namespace CourseAdmission.Json

open Decimal (Digits)

namespace Numeral

/-- Digits whose number fits into 64 bits are all taken. -/
theorem gather_eq {n : Nat} {cs : List Char} (hfits : Nat.ofDigitChars 10 cs n ≤ maxWord) :
    gather n cs = (Nat.ofDigitChars 10 cs n, []) := by
  induction cs generalizing n with
  | nil => rfl
  | cons c cs ih =>
    have hnext : n * 10 + (c.toNat - '0'.toNat) ≤ maxWord := by
      rw [Nat.ofDigitChars_cons, Nat.ofDigitChars_eq_ofDigitChars_zero] at hfits
      have := Nat.le_mul_of_pos_left (10 * n + (c.toNat - '0'.toNat))
        (Nat.pow_pos (n := cs.length) (by decide : 0 < 10))
      omega
    rw [Nat.ofDigitChars_cons, Nat.mul_comm] at hfits ⊢
    rw [gather, if_pos hnext, ih hfits]

/-- The digits of a literal, if they fit into 64 bits, and the places behind its point. -/
theorem leading_eq {n : Numeral} (hfits : Decimal.ofDigits (n.whole ++ n.fraction) ≤ maxWord) :
    n.leading = (Decimal.ofDigits (n.whole ++ n.fraction), -(n.fraction.length : Int)) := by
  rw [Decimal.ofDigits_eq, Nat.ofDigitChars_append] at hfits ⊢
  have hwhole : Nat.ofDigitChars 10 n.whole 0 ≤ maxWord := by
    rw [Nat.ofDigitChars_eq_ofDigitChars_zero] at hfits
    have := Nat.le_mul_of_pos_left (Nat.ofDigitChars 10 n.whole 0)
      (Nat.pow_pos (n := n.fraction.length) (by decide : 0 < 10))
    omega
  unfold leading
  rw [gather_eq hwhole]
  dsimp only
  rw [gather_eq hfits]
  simp

end Numeral

/-- The digits of a written double as one number, and the power of ten that they are read with. A
    whole number has a zero behind its point. -/
def readParts (d : Decimal) : Nat × Int :=
  if layout.positional d.leadingPlace = true ∧ 0 ≤ d.exponent then
    (d.digits * 10 ^ (d.exponent.toNat + 1), -1)
  else (d.digits, d.exponent)

theorem ofDigits_append_zeros (cs : List Char) (n : Nat) :
    Decimal.ofDigits (cs ++ List.replicate n '0') = 10 ^ n * Decimal.ofDigits cs := by
  simp [Decimal.ofDigits_eq, Nat.ofDigitChars_append]

theorem ofDigits_zeros_append (cs : List Char) (n : Nat) :
    Decimal.ofDigits (List.replicate n '0' ++ cs) = Decimal.ofDigits cs := by
  simp [Decimal.ofDigits_eq, Nat.ofDigitChars_append]

theorem length_leadingPlace (d : Decimal) :
    ((Nat.toDigits 10 d.digits).length : Int) = d.leadingPlace - d.exponent + 1 := by
  have hlist : (toString d.digits).toList = Nat.toDigits 10 d.digits := toString_toList d.digits
  rw [Decimal.leadingPlace, ← String.length_toList, hlist]
  omega

/-- A literal without an exponent is scaled by the places behind its point. -/
theorem magnitude_eq {n : Numeral} {significand : Nat} {power : Int} (hexponent : n.exponent = none)
    (hvalue : Decimal.ofDigits (n.whole ++ n.fraction) = significand)
    (hfits : significand ≤ Numeral.maxWord) (hplaces : (n.fraction.length : Int) = -power) :
    n.magnitude = Numeral.scale significand power := by
  have hpower : -(n.fraction.length : Int) = power := by omega
  unfold Numeral.magnitude
  rw [Numeral.leading_eq (by rwa [hvalue]), hvalue, hexponent, hpower]

theorem digits_lt (d : Decimal) : d.digits < 10 ^ (Nat.toDigits 10 d.digits).length :=
  (Nat.length_toDigits_le_iff (by decide) Nat.length_toDigits_pos).1 le_rfl

/-- A whole number that is written without an exponent has at most 17 digits, with one behind the
    point. -/
theorem whole_le {d : Decimal} (hplace : layout.positional d.leadingPlace = true)
    (hwhole : 0 ≤ d.exponent) : d.digits * 10 ^ (d.exponent.toNat + 1) ≤ Numeral.maxWord := by
  have hlength := length_leadingPlace d
  have hsmall : d.leadingPlace < 16 := (of_decide_eq_true hplace).2
  calc d.digits * 10 ^ (d.exponent.toNat + 1)
      ≤ 10 ^ (Nat.toDigits 10 d.digits).length * 10 ^ (d.exponent.toNat + 1) :=
        Nat.mul_le_mul_right _ (digits_lt d).le
    _ = 10 ^ ((Nat.toDigits 10 d.digits).length + (d.exponent.toNat + 1)) := (Nat.pow_add ..).symm
    _ ≤ 10 ^ 17 := Nat.pow_le_pow_right (by decide) (by omega)
    _ ≤ Numeral.maxWord := by decide

/-- A literal with one digit before the point is scaled by its exponent, less the places behind the
    point. -/
theorem magnitude_scientific (negative : Bool) {d : Decimal} (hdigits : d.digits ≤ 2 ^ 63)
    (hlow : -341 ≤ d.exponent) (hhigh : d.exponent ≤ 309) :
    Numeral.magnitude ⟨negative, (Nat.toDigits 10 d.digits).take 1,
      (Nat.toDigits 10 d.digits).drop 1,
      some (decide (d.leadingPlace < 0), Nat.toDigits 10 d.leadingPlace.natAbs)⟩ =
        Numeral.scale d.digits d.exponent := by
  have hlength := length_leadingPlace d
  have hpos := Nat.length_toDigits_pos (b := 10) (n := d.digits)
  have hvalue : Decimal.ofDigits ((Nat.toDigits 10 d.digits).take 1 ++
      (Nat.toDigits 10 d.digits).drop 1) = d.digits := by
    rw [List.take_append_drop, Decimal.ofDigits_toDigits]
  have hshort : (Nat.toDigits 10 d.digits).length ≤ 20 :=
    (Nat.length_toDigits_le_iff (by decide) (by decide)).2 (hdigits.trans_lt (by decide))
  have hexponent : d.leadingPlace.natAbs < Word.limit 31 :=
    Nat.lt_of_lt_of_le (by omega : d.leadingPlace.natAbs < 1000) (by decide)
  unfold Numeral.magnitude
  rw [Numeral.leading_eq (by rw [hvalue]; exact hdigits.trans (by decide))]
  dsimp only
  rw [hvalue, Decimal.ofDigits_toDigits, if_neg (by omega), List.length_drop]
  congr 1
  by_cases hneg : d.leadingPlace < 0
  · rw [if_pos (by simpa using hneg)]
    omega
  · rw [if_neg (by simpa using hneg)]
    omega

/-- The digits of a written double are scaled in one step. -/
theorem magnitude_doubleNumeral (negative : Bool) {d : Decimal} (hdigits : d.digits ≤ 2 ^ 63)
    (hlow : -341 ≤ d.exponent) (hhigh : d.exponent ≤ 309) :
    (doubleNumeral negative d).magnitude = Numeral.scale (readParts d).1 (readParts d).2 := by
  have hword : d.digits ≤ Numeral.maxWord := hdigits.trans (by decide)
  have hzero : ['0'] = List.replicate 1 '0' := rfl
  unfold doubleNumeral
  dsimp only
  by_cases hplace : layout.positional d.leadingPlace = true
  · rw [if_pos hplace]
    by_cases hwhole : 0 ≤ d.exponent
    · have hparts : readParts d = (d.digits * 10 ^ (d.exponent.toNat + 1), -1) :=
        if_pos ⟨hplace, hwhole⟩
      rw [if_pos hwhole, hparts]
      refine magnitude_eq rfl ?_ (whole_le hplace hwhole) rfl
      rw [List.append_assoc, hzero, List.replicate_append_replicate, ofDigits_append_zeros,
        Decimal.ofDigits_toDigits, Nat.mul_comm]
    · have hparts : readParts d = (d.digits, d.exponent) := if_neg fun h => hwhole h.2
      rw [if_neg hwhole, hparts]
      split
      case isTrue hplaces =>
        refine magnitude_eq rfl ?_ hword ?_
        · rw [List.take_append_drop, Decimal.ofDigits_toDigits]
        · rw [List.length_drop]
          omega
      case isFalse hplaces =>
        refine magnitude_eq rfl ?_ hword ?_
        · rw [← List.append_assoc, hzero, List.replicate_append_replicate, ofDigits_zeros_append,
            Decimal.ofDigits_toDigits]
        · rw [List.length_append, List.length_replicate]
          omega
  · have hparts : readParts d = (d.digits, d.exponent) := if_neg fun h => hplace h.1
    rw [if_neg hplace, hparts]
    exact magnitude_scientific negative hdigits hlow hhigh

@[simp]
theorem negative_doubleNumeral (negative : Bool) (d : Decimal) :
    (doubleNumeral negative d).negative = negative := by
  unfold doubleNumeral
  dsimp only
  split
  · split
    · rfl
    · split <;> rfl
  · rfl

theorem Numeral.number_eq {n : Numeral} (hinteger : n.integer? = none) :
    n.number = n.magnitude.elim .outOfRange fun x => .double (if n.negative then -x else x) := by
  rw [number, hinteger]
  cases n.magnitude <;> rfl

end Json

open Json

namespace Binary64

/-- What the text of a double is read as, but for its sign, unless it is beyond the finite
    numbers. -/
def readBack (x : Binary64) : Option Binary64 :=
  let d := Decimal.shortest .even x.units
  Numeral.scale (readParts d).1 (readParts d).2

theorem shortest_bounds {x : Binary64} (hx : x.isFinite) :
    (Decimal.shortest .even x.units).digits ≤ 2 ^ 63 ∧
      -341 ≤ (Decimal.shortest .even x.units).exponent ∧
      (Decimal.shortest .even x.units).exponent ≤ 309 := by
  obtain ⟨negative, units, onGrid, bounded, rfl⟩ := exists_eq_finite hx
  rcases Nat.eq_zero_or_pos units with rfl | hunits
  · exact of_decide_eq_true (rfl : decide ((Decimal.shortest .even 0).digits ≤ 2 ^ 63 ∧
      -341 ≤ (Decimal.shortest .even 0).exponent ∧
      (Decimal.shortest .even 0).exponent ≤ 309) = true)
  · exact ⟨Decimal.shortest_digits_le .even hunits bounded,
      Decimal.shortest_exponent_bounds .even hunits bounded⟩

theorem reread_double {x : Binary64} (hx : x.isFinite) :
    (Document.Number.double x).reread =
      x.readBack.elim .outOfRange fun y => .double (if x.isNegative then -y else y) := by
  obtain ⟨hdigits, hlow, hhigh⟩ := shortest_bounds hx
  rw [Document.Number.reread, Numeral.number_eq (integer?_doubleNumeral _ _),
    magnitude_doubleNumeral x.isNegative hdigits hlow hhigh]
  simp only [negative_doubleNumeral, readBack]

end Binary64

end CourseAdmission
