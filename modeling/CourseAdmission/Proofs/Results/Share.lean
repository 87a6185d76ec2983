import CourseAdmission.Proofs.Binary64.Precision
import CourseAdmission.Proofs.Results.Growth

/-!
The share of passed results as one rounded quotient.

Counts and their hundredfold are exact, so only the division rounds. A quotient of counts that is no
whole number stays at least one part of the greater count away from all of them, and the doubles lie
closer together than that, so rounding takes no quotient to a whole number or past it.
-/

namespace CourseAdmission

namespace Binary64

variable {n d m : Nat}

/-- Below a whole number a quotient with a denominator of at most 40 binary digits stays below. -/
theorem roundUnits_lt_whole_iff (hd : 0 < d) (hdigits : d ≤ 2 ^ 40) (hm : m ≤ 2 ^ 12) :
    roundUnits (n * unitsPerOne) d < m * unitsPerOne ↔ n < m * d := by
  have hone := unitsPerOne_pos
  constructor
  · intro hround
    by_contra hge
    have hle := le_roundUnits_of_le (onGrid_mul_unitsPerOne (n := m) (hm.trans (by decide))) hd
      (show m * unitsPerOne * d ≤ n * unitsPerOne by
        rw [Nat.mul_right_comm]
        exact Nat.mul_le_mul_right _ (Nat.not_lt.1 hge))
    omega
  · intro hlt
    have hpos : 0 < m := Nat.pos_of_mul_pos_right (Nat.zero_lt_of_lt hlt)
    -- the whole number less one part in `2 ^ 40` is a double between the two
    have hbelow : 2 ^ 40 * n ≤ (m * 2 ^ 40 - 1) * d := by
      rw [Nat.sub_mul, Nat.one_mul, Nat.mul_right_comm]
      omega
    have hscaled : 2 ^ 40 * (n * unitsPerOne) ≤ (m * 2 ^ 40 - 1) * unitsPerOne * d := by
      rw [← Nat.mul_assoc, Nat.mul_right_comm _ unitsPerOne]
      exact Nat.mul_le_mul_right _ hbelow
    have hroom : m * 2 ^ 40 - 1 ≤ significandLimit :=
      (Nat.sub_le _ _).trans ((Nat.mul_le_mul_right _ hm).trans (by decide))
    have hle := roundUnits_le_of_le_fraction hd hroom (by decide) hscaled
    rw [Nat.sub_mul, Nat.one_mul, Nat.mul_right_comm] at hle
    have := Nat.le_mul_of_pos_left unitsPerOne hpos
    omega

/-- Above a whole number it stays above. -/
theorem whole_lt_roundUnits_iff (hd : 0 < d) (hdigits : d ≤ 2 ^ 40) (hm : m < 2 ^ 12) :
    m * unitsPerOne < roundUnits (n * unitsPerOne) d ↔ m * d < n := by
  have hone := unitsPerOne_pos
  constructor
  · intro hround
    by_contra hge
    have hle := roundUnits_le_of_le (onGrid_mul_unitsPerOne (n := m) (hm.le.trans (by decide))) hd
      (show n * unitsPerOne ≤ m * unitsPerOne * d by
        rw [Nat.mul_right_comm]
        exact Nat.mul_le_mul_right _ (Nat.not_lt.1 hge))
    omega
  · intro hlt
    -- so is the whole number and one part in `2 ^ 40`
    have habove : (m * 2 ^ 40 + 1) * d ≤ 2 ^ 40 * n := by
      rw [Nat.add_mul, Nat.one_mul, Nat.mul_right_comm]
      omega
    have hscaled : (m * 2 ^ 40 + 1) * unitsPerOne * d ≤ 2 ^ 40 * (n * unitsPerOne) := by
      rw [← Nat.mul_assoc, Nat.mul_right_comm _ unitsPerOne]
      exact Nat.mul_le_mul_right _ habove
    have hroom : m * 2 ^ 40 + 1 ≤ significandLimit :=
      (Nat.add_le_add_right (Nat.mul_le_mul_right _ hm.le) 1).trans (by decide)
    have hle := le_roundUnits_of_fraction_le hd hroom (by decide) hscaled
    rw [Nat.add_mul, Nat.one_mul, Nat.mul_right_comm] at hle
    omega

theorem units_ofNat (hn : n ≤ significandLimit) :
    (ofNat n).isNegative = false ∧ (ofNat n).units = n * unitsPerOne := by
  rw [ofNat_eq hn]
  exact ⟨rfl, rfl⟩

/-- Exact whole numbers are multiplied as whole numbers. -/
theorem ofNat_mul_ofNat (hm : m ≤ significandLimit) (hn : n ≤ significandLimit) :
    ofNat m * ofNat n = ofNat (m * n) := by
  obtain ⟨hsign, hunits⟩ := units_ofNat hm
  obtain ⟨hsign', hunits'⟩ := units_ofNat hn
  refine (mul_eq_ofQuotient (ofNat_spec hm).1 (ofNat_spec hn).1).trans ?_
  rw [hsign, hsign', hunits, hunits']
  exact ofQuotient_congr _ (roundUnits_congr unitsPerOne_pos Nat.one_pos (by ring))

/-- A quotient of exact whole numbers is rounded once. -/
theorem ofNat_div_ofNat_spec (hn : n ≤ significandLimit) (hpos : 0 < d)
    (hd : d ≤ significandLimit) : (ofNat n / ofNat d).isFinite ∧
      (ofNat n / ofNat d).signedUnits = roundUnits (n * unitsPerOne) d := by
  obtain ⟨hsign, hunits⟩ := units_ofNat hn
  obtain ⟨hsign', hunits'⟩ := units_ofNat hd
  have hne : (ofNat d).units ≠ 0 := by
    rw [hunits']
    exact (Nat.mul_pos hpos unitsPerOne_pos).ne'
  have hquotient : roundUnits (n * unitsPerOne * unitsPerOne) (d * unitsPerOne) =
      roundUnits (n * unitsPerOne) d := roundUnits_mul_mul hpos unitsPerOne_pos
  have hlt : roundUnits (n * unitsPerOne) d < unitLimit :=
    (roundUnits_le_of_le (onGrid_mul_unitsPerOne hn) hpos
      (Nat.le_mul_of_pos_right _ hpos)).trans_lt (mul_unitsPerOne_lt hn)
  obtain ⟨hfinite, hpositive, hvalue⟩ := ofQuotient_spec (false != false) hlt
  rw [div_eq_ofQuotient (ofNat_spec hn).1 (ofNat_spec hd).1 hne, hsign, hsign', hunits, hunits',
    ofQuotient_congr _ hquotient, signedUnits_eq, hpositive, hvalue]
  exact ⟨hfinite, rfl⟩

end Binary64

open Binary64

variable {part whole : Nat}

/-- The counts and the hundredfold part are exact, so only the division rounds. -/
theorem percentOf_eq (hpos : 0 < whole) (hwhole : whole < 2 ^ 40) (hpart : part ≤ whole) :
    percentOf part whole = ofNat (100 * part) / ofNat whole := by
  have hroom : 2 ^ 40 ≤ significandLimit := by decide
  have hproduct : ofNat part * 100 = ofNat (part * 100) :=
    ofNat_mul_ofNat (by omega) (by decide)
  rw [percentOf, if_neg hpos.ne', hproduct, Nat.mul_comm 100]

theorem percentOf_spec (hpos : 0 < whole) (hwhole : whole < 2 ^ 40) (hpart : part ≤ whole) :
    (percentOf part whole).isFinite ∧
      (percentOf part whole).signedUnits = roundUnits (100 * part * unitsPerOne) whole := by
  have hroom : 100 * 2 ^ 40 ≤ significandLimit := by decide
  rw [percentOf_eq hpos hwhole hpart]
  exact ofNat_div_ofNat_spec (by omega) hpos (by omega)

end CourseAdmission
