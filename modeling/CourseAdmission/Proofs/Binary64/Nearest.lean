import CourseAdmission.Proofs.Binary64.Order
import CourseAdmission.Proofs.Binary64.Perturb

/-!
What it means that a double is the nearest one to an exact number.

No double is nearer, and where two are equally near the one with the even significand is meant. The
double that `roundInt` arrives at is the nearest one in this sense.
-/

namespace CourseAdmission.Binary64

/-- The leading binary digits of a number of units, as many as a significand holds. -/
def significand (units : Nat) : Nat := units / spacing units

/-- The double nearest to a whole number of units, a tie going to the even significand. -/
structure IsNearest (x : Binary64) (exact : Int) : Prop where
  finite : x.isFinite = true
  nearest : ∀ y : Binary64, y.isFinite →
    (exact - x.signedUnits).natAbs ≤ (exact - y.signedUnits).natAbs
  tiesToEven : ∀ y : Binary64, y.isFinite →
    (exact - y.signedUnits).natAbs = (exact - x.signedUnits).natAbs →
    y.signedUnits ≠ x.signedUnits → significand x.units % 2 = 0

/-- Also where rounding arrives at the next power of two, and so at wider neighbours. -/
theorem significand_roundUnits_even {n : Nat} (heven : roundUnits n 1 / spacing n % 2 = 0) :
    significand (roundUnits n 1) % 2 = 0 := by
  have hspacing := spacing_div_le n Nat.one_pos
  rw [Nat.div_one] at hspacing
  rcases hspacing.eq_or_lt with hsame | hwider
  · rwa [significand, ← hsame]
  · have hdouble : 2 * spacing n ≤ spacing (roundUnits n 1) := by
      rw [spacing_eq, spacing_eq, Nat.pow_lt_pow_iff_right (by decide)] at hwider
      rw [spacing_eq, spacing_eq, ← Nat.pow_succ']
      exact Nat.pow_le_pow_right (by decide) hwider
    have hlow := mul_spacing_le ((Nat.succ_le_of_lt (spacing_pos n)).trans_lt hwider)
    have hhigh : roundUnits n 1 ≤ significandLimit * spacing n := by
      apply roundUnits_le_of_dvd Nat.one_pos
      · rw [Nat.div_one]
        exact Nat.dvd_mul_left _ _
      · rw [Nat.mul_one]
        exact (lt_mul_spacing n).le
    have hpower : roundUnits n 1 = 2 ^ 52 * spacing (roundUnits n 1) := by
      unfold significandLimit at hhigh
      rw [Nat.pow_eq] at hhigh
      omega
    rw [significand, Nat.div_eq_of_eq_mul_left (spacing_pos _) hpower]
    decide

/-- A double on the other side of an exact number, as far away as the rounded one: then the number
    lies in the middle, and the significand is even. -/
theorem significand_even_of_tie {z y : Int} (hy : OnGrid y.natAbs)
    (hequal : (z - y).natAbs = (z - roundInt z).natAbs) (hne : y ≠ roundInt z) :
    significand (roundInt z).natAbs % 2 = 0 := by
  have hmirror : y = roundInt z + 2 * (z - roundInt z) := by omega
  have hgrid : ¬OnGrid z.natAbs := by
    intro hgrid
    rw [roundInt_of_onGrid hgrid] at hmirror hne
    omega
  have htie : 2 * (z - roundInt z).natAbs = spacing z.natAbs := by
    apply Nat.le_antisymm (two_mul_natAbs_sub_roundInt_le z)
    by_contra hlt
    rw [hmirror] at hy
    exact not_onGrid_of_lt hgrid (Nat.not_le.1 hlt) hy
  obtain ⟨-, -, heven⟩ := roundUnits_spec z.natAbs Nat.one_pos
  rw [Nat.div_one, Nat.mul_one, Nat.mul_one, Nat.mul_one] at heven
  rw [natAbs_roundInt]
  apply significand_roundUnits_even (heven _)
  unfold roundInt at htie
  split at htie <;> omega

/-- Rounding arrives at the nearest double. -/
theorem isNearest_of_eq_roundInt {x : Binary64} {exact : Int} (hx : x.isFinite)
    (hvalue : x.signedUnits = roundInt exact) : x.IsNearest exact where
  finite := hx
  nearest y _ := by
    rw [hvalue]
    exact roundInt_nearest exact (onGrid_signedUnits y)
  tiesToEven y _ hequal hne := by
    rw [hvalue] at hequal hne
    rw [← natAbs_signedUnits, hvalue]
    exact significand_even_of_tie (onGrid_signedUnits y) hequal hne

/-! Signs -/

theorem roundUnits_pos {n : Nat} (hn : 0 < n) : 0 < roundUnits n 1 :=
  le_roundUnits_of_le (onGrid_of_le (by decide)) Nat.one_pos (by omega)

theorem roundInt_eq_zero_iff {z : Int} : roundInt z = 0 ↔ z = 0 := by
  refine ⟨fun hround => ?_, fun hz => by rw [hz, roundInt_zero]⟩
  have habs := natAbs_roundInt z
  by_contra hz
  have hpos := roundUnits_pos (n := z.natAbs) (by omega)
  omega

/-- Rounding keeps the side of zero. -/
theorem roundInt_neg_iff {z : Int} : roundInt z < 0 ↔ z < 0 := by
  have hzero := roundInt_eq_zero_iff (z := z)
  rw [roundInt] at hzero ⊢
  split
  case isTrue hz =>
    rw [if_pos hz] at hzero
    omega
  case isFalse hz => omega

end CourseAdmission.Binary64
