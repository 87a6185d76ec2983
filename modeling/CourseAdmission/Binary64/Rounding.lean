/-!
Rounding an exact quotient to the grid of binary64 numbers.

Every finite binary64 number is a whole number of *units*, a unit being `2 ^ (-1074)`, the smallest
positive one. A number of units is on the grid if at most its 53 leading binary digits are used;
`roundUnits` takes any quotient to the nearest number on the grid, and `onGrid_roundUnits` says that
it arrives there.
-/

namespace CourseAdmission

/-- The quotient `n / d` rounded to the nearest natural number, a tie going to the even
    neighbour. -/
def nearestEven (n d : Nat) : Nat :=
  if d < 2 * (n % d) ∨ (2 * (n % d) = d ∧ n / d % 2 = 1) then n / d + 1 else n / d

namespace Binary64

/-- How many units make one: a unit is `2 ^ (-1074)`. -/
def unitsPerOne : Nat := Nat.pow 2 1074

/-- The first power of two beyond the finite numbers, `2 ^ 1024`, in units. -/
def unitLimit : Nat := Nat.pow 2 2098

/-- The least number that has no room in a significand, which has 53 binary digits. -/
def significandLimit : Nat := Nat.pow 2 53

/-- How many low binary digits of a number of units have no room in a significand. -/
def excessDigits (units : Nat) : Nat := units.log2 - 52

/-- The distance of neighbours on the grid from a number of units on. -/
def spacing (units : Nat) : Nat := Nat.pow 2 (excessDigits units)

/-- A number of units that a significand can hold. -/
def OnGrid (units : Nat) : Prop := spacing units ∣ units

instance (units : Nat) : Decidable (OnGrid units) :=
  inferInstanceAs (Decidable (_ ∣ _))

/-- The number on the grid nearest to `n / d` units; a tie goes to the even significand. -/
def roundUnits (n d : Nat) : Nat :=
  nearestEven n (d * spacing (n / d)) * spacing (n / d)

theorem nearestEven_le (n d : Nat) : nearestEven n d ≤ n / d + 1 := by
  unfold nearestEven
  split <;> omega

theorem le_nearestEven (n d : Nat) : n / d ≤ nearestEven n d := by
  unfold nearestEven
  split <;> omega

theorem div_spacing_lt (m : Nat) : m / spacing m < significandLimit := by
  have hpow : Nat.pow 2 (m.log2 + 1) ≤ Nat.pow 2 (excessDigits m + 53) :=
    Nat.pow_le_pow_right (by decide) (by unfold excessDigits; omega)
  unfold spacing significandLimit
  simp only [Nat.pow_eq] at hpow ⊢
  rw [Nat.div_lt_iff_lt_mul (Nat.two_pow_pos _), Nat.mul_comm, ← Nat.pow_add]
  exact Nat.lt_of_lt_of_le Nat.lt_log2_self hpow

/-- A significand stays on the grid when binary zeros are written behind it. -/
theorem onGrid_mul_pow {significand : Nat} (h : significand ≤ significandLimit) (shift : Nat) :
    OnGrid (significand * Nat.pow 2 shift) := by
  unfold OnGrid spacing
  unfold significandLimit at h
  simp only [Nat.pow_eq] at h ⊢
  rcases Nat.lt_or_eq_of_le h with hlt | heq
  · have hlog : excessDigits (significand * Nat.pow 2 shift) ≤ shift := by
      simp only [Nat.pow_eq]
      by_cases hzero : significand = 0
      · simp [hzero, excessDigits]
      · have hne := Nat.mul_ne_zero hzero (Nat.ne_of_gt (Nat.two_pow_pos shift))
        have hbound := Nat.mul_lt_mul_of_pos_right hlt (Nat.two_pow_pos shift)
        rw [← Nat.pow_add] at hbound
        have := (Nat.log2_lt hne).2 hbound
        unfold excessDigits
        omega
    simp only [Nat.pow_eq] at hlog
    exact Nat.dvd_trans (Nat.pow_dvd_pow 2 hlog) (Nat.dvd_mul_left _ _)
  · rw [heq, ← Nat.pow_add]
    apply Nat.pow_dvd_pow
    unfold excessDigits
    rw [Nat.log2_two_pow]
    omega

theorem onGrid_roundUnits (n d : Nat) : OnGrid (roundUnits n d) := by
  apply onGrid_mul_pow
  have hround := nearestEven_le n (d * spacing (n / d))
  have hdigits := div_spacing_lt (n / d)
  rw [Nat.div_div_eq_div_mul] at hdigits
  omega

end Binary64

end CourseAdmission
