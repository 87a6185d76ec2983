import CourseAdmission.Binary64.Basic
import CourseAdmission.Proofs.Binary64.Grid

/-!
Sums and differences of finite numbers, in units.

The value of a finite number is a whole number of units, so that a sum is the exact sum taken to the
grid, as long as it stays below the first power of two beyond the finite numbers.
-/

namespace CourseAdmission.Binary64

/-- The number on the grid nearest to a whole number of units. -/
def roundInt (z : Int) : Int :=
  if z < 0 then -(roundUnits z.natAbs 1 : Int) else roundUnits z.natAbs 1

theorem natAbs_roundInt (z : Int) : (roundInt z).natAbs = roundUnits z.natAbs 1 := by
  unfold roundInt
  split <;> omega

theorem onGrid_roundInt (z : Int) : OnGrid (roundInt z).natAbs := by
  rw [natAbs_roundInt]
  exact onGrid_roundUnits _ _

theorem roundInt_of_onGrid {z : Int} (hgrid : OnGrid z.natAbs) : roundInt z = z := by
  unfold roundInt
  rw [roundUnits_one hgrid]
  split <;> omega

@[simp]
theorem roundInt_zero : roundInt 0 = 0 := roundInt_of_onGrid (onGrid_of_le (by decide))

/-- No number on the grid is nearer than the rounded one. -/
theorem roundInt_nearest (z : Int) {x : Int} (hgrid : OnGrid x.natAbs) :
    (z - roundInt z).natAbs ≤ (z - x).natAbs := by
  have hsame := roundUnits_nearest z.natAbs hgrid
  have hzero := roundUnits_nearest z.natAbs (onGrid_of_le (Nat.zero_le _))
  unfold roundInt
  split
  · rcases Int.lt_or_le x 0 with hx | hx
    · omega
    · have : (z - x).natAbs = z.natAbs + x.natAbs := by omega
      omega
  · rcases Int.lt_or_le x 0 with hx | hx
    · have : (z - x).natAbs = z.natAbs + x.natAbs := by omega
      omega
    · omega

theorem two_mul_natAbs_sub_roundInt_le (z : Int) :
    2 * (z - roundInt z).natAbs ≤ spacing z.natAbs := by
  obtain ⟨hhigh, hlow, -⟩ := roundUnits_spec z.natAbs (d := 1) (by decide)
  simp only [Nat.div_one, Nat.mul_one] at hhigh hlow
  unfold roundInt
  split <;> omega

theorem two_pow_dvd_iff {k : Nat} {z : Int} : (2 ^ k : Int) ∣ z ↔ 2 ^ k ∣ z.natAbs := by
  rw [← Int.natCast_dvd]
  push_cast
  rfl

theorem two_pow_dvd_roundInt {k : Nat} {z : Int} (hdvd : (2 ^ k : Int) ∣ z) :
    (2 ^ k : Int) ∣ roundInt z := by
  rw [two_pow_dvd_iff] at hdvd ⊢
  rw [natAbs_roundInt]
  exact pow_dvd_roundUnits hdvd

/-! Values of the operations -/

theorem unitLimit_pos : 0 < unitLimit := by
  unfold unitLimit
  simp only [Nat.pow_eq]
  positivity

@[simp]
theorem signedUnits_finite_true (n : Nat) (hgrid : OnGrid n) (hn : n < unitLimit) :
    (finite true n hgrid hn).signedUnits = -(n : Int) := rfl

@[simp]
theorem signedUnits_finite_false (n : Nat) (hgrid : OnGrid n) (hn : n < unitLimit) :
    (finite false n hgrid hn).signedUnits = n := rfl

theorem natAbs_signedUnits (x : Binary64) : x.signedUnits.natAbs = x.units := by
  cases x with
  | nan => rfl
  | infinite => rfl
  | finite negative n =>
    cases negative
    · rfl
    · exact Int.natAbs_neg n

theorem onGrid_signedUnits (x : Binary64) : OnGrid x.signedUnits.natAbs := by
  rw [natAbs_signedUnits]
  cases x with
  | nan => exact onGrid_of_le (Nat.zero_le _)
  | infinite => exact onGrid_of_le (Nat.zero_le _)
  | finite _ _ onGrid => exact onGrid

theorem natAbs_signedUnits_lt (x : Binary64) : x.signedUnits.natAbs < unitLimit := by
  rw [natAbs_signedUnits]
  cases x with
  | nan => exact unitLimit_pos
  | infinite => exact unitLimit_pos
  | finite _ _ _ bounded => exact bounded

/-- A finite number is a sign and units on the grid. -/
theorem exists_eq_finite {x : Binary64} (hx : x.isFinite) :
    ∃ negative units, ∃ (onGrid : OnGrid units) (bounded : units < unitLimit),
      x = .finite negative units onGrid bounded := by
  cases x with
  | nan => cases hx
  | infinite => cases hx
  | finite negative units onGrid bounded => exact ⟨negative, units, onGrid, bounded, rfl⟩

theorem ofQuotient_of_lt {n d : Nat} (negative : Bool) (hlt : roundUnits n d < unitLimit) :
    ofQuotient negative n d = .finite negative (roundUnits n d) (onGrid_roundUnits n d) hlt := by
  rw [ofQuotient, dif_pos hlt]

@[simp]
theorem isFinite_neg (x : Binary64) : (-x).isFinite = x.isFinite := by
  cases x <;> rfl

@[simp]
theorem signedUnits_neg (x : Binary64) : (-x).signedUnits = -x.signedUnits := by
  cases x with
  | nan => rfl
  | infinite => rfl
  | finite negative units =>
    cases negative
    · rfl
    · exact (Int.neg_neg _).symm

/-- The double nearest to a whole number of units, the sign of a zero being free. -/
theorem ofQuotient_one_spec {z : Int} (zeroSign : Bool) (hlt : (roundInt z).natAbs < unitLimit) :
    (ofQuotient (if z = 0 then zeroSign else decide (z < 0)) z.natAbs 1).isFinite ∧
      (ofQuotient (if z = 0 then zeroSign else decide (z < 0)) z.natAbs 1).signedUnits =
        roundInt z := by
  rw [natAbs_roundInt] at hlt
  rw [ofQuotient_of_lt _ hlt]
  refine ⟨rfl, ?_⟩
  rcases Int.lt_trichotomy z 0 with hneg | rfl | hpos
  · simp [roundInt, hneg, hneg.ne]
  · cases zeroSign <;> simp [roundUnits_one (onGrid_of_le (Nat.zero_le _))]
  · simp [roundInt, hpos.ne', show ¬z < 0 by omega]

theorem finite_add_finite (a b : Bool) {m n : Nat} (hm : OnGrid m) (hn : OnGrid n)
    (hm' : m < unitLimit) (hn' : n < unitLimit) :
    let sum := (finite a m hm hm').signedUnits + (finite b n hn hn').signedUnits
    finite a m hm hm' + finite b n hn hn' =
      ofQuotient (if sum = 0 then a && b else decide (sum < 0)) sum.natAbs 1 := by
  change add _ _ = _
  simp only [add]

theorem add_spec {x y : Binary64} (hx : x.isFinite) (hy : y.isFinite)
    (hlt : (roundInt (x.signedUnits + y.signedUnits)).natAbs < unitLimit) :
    (x + y).isFinite ∧ (x + y).signedUnits = roundInt (x.signedUnits + y.signedUnits) := by
  obtain ⟨a, m, _, _, rfl⟩ := exists_eq_finite hx
  obtain ⟨b, n, _, _, rfl⟩ := exists_eq_finite hy
  rw [finite_add_finite]
  exact ofQuotient_one_spec (a && b) hlt

theorem sub_spec {x y : Binary64} (hx : x.isFinite) (hy : y.isFinite)
    (hlt : (roundInt (x.signedUnits - y.signedUnits)).natAbs < unitLimit) :
    (x - y).isFinite ∧ (x - y).signedUnits = roundInt (x.signedUnits - y.signedUnits) := by
  have hsum := add_spec (x := x) (y := -y) hx (by rwa [isFinite_neg])
    (by rwa [signedUnits_neg, ← Int.sub_eq_add_neg])
  rwa [signedUnits_neg, ← Int.sub_eq_add_neg] at hsum

/-- A sum or difference whose exact value is on the grid is exact. -/
theorem sub_exact {x y : Binary64} (hx : x.isFinite) (hy : y.isFinite)
    (hgrid : OnGrid (x.signedUnits - y.signedUnits).natAbs)
    (hlt : (x.signedUnits - y.signedUnits).natAbs < unitLimit) :
    (x - y).isFinite ∧ (x - y).signedUnits = x.signedUnits - y.signedUnits := by
  have hround := roundInt_of_onGrid hgrid
  have hsub := sub_spec hx hy (by rwa [hround])
  rwa [hround] at hsub

theorem abs_lt_abs_iff {x y : Binary64} (hx : x.isFinite) (hy : y.isFinite) :
    x.abs < y.abs ↔ x.signedUnits.natAbs < y.signedUnits.natAbs := by
  rw [natAbs_signedUnits, natAbs_signedUnits]
  obtain ⟨a, m, _, _, rfl⟩ := exists_eq_finite hx
  obtain ⟨b, n, _, _, rfl⟩ := exists_eq_finite hy
  change decide ((m : Int) < n) = true ↔ m < n
  simp

theorem zero_eq : (0 : Binary64) =
    .finite false 0 (onGrid_of_le (Nat.zero_le _)) unitLimit_pos := by
  have hround : roundUnits (0 * unitsPerOne) 1 = 0 := by
    rw [Nat.zero_mul]
    exact roundUnits_one (onGrid_of_le (Nat.zero_le _))
  rw [show (0 : Binary64) = ofNat 0 from rfl, ofNat,
    ofQuotient_of_lt false (hround.trans_lt unitLimit_pos)]
  simp only [hround]

@[simp]
theorem signedUnits_zero : (0 : Binary64).signedUnits = 0 := by rw [zero_eq]; rfl

@[simp]
theorem isFinite_zero : (0 : Binary64).isFinite = true := by rw [zero_eq]; rfl

/-! Comparisons -/

variable {x y : Binary64}

theorem lt_iff (hx : x.isFinite) (hy : y.isFinite) : x < y ↔ x.signedUnits < y.signedUnits := by
  obtain ⟨a, m, _, _, rfl⟩ := exists_eq_finite hx
  obtain ⟨b, n, _, _, rfl⟩ := exists_eq_finite hy
  exact decide_eq_true_iff

theorem beq_iff (hx : x.isFinite) (hy : y.isFinite) :
    (x == y) = true ↔ x.signedUnits = y.signedUnits := by
  obtain ⟨a, m, _, _, rfl⟩ := exists_eq_finite hx
  obtain ⟨b, n, _, _, rfl⟩ := exists_eq_finite hy
  exact decide_eq_true_iff

theorem beq_self (hx : x.isFinite) : (x == x) = true := (beq_iff hx hx).2 rfl

theorem le_iff (hx : x.isFinite) (hy : y.isFinite) : x ≤ y ↔ x.signedUnits ≤ y.signedUnits := by
  have hlt : lt x y = true ↔ x.signedUnits < y.signedUnits := lt_iff hx hy
  have hsame : same x y = true ↔ x.signedUnits = y.signedUnits := beq_iff hx hy
  change (lt x y || same x y) = true ↔ _
  rw [Bool.or_eq_true, hlt, hsame]
  omega

theorem beq_zero_iff (hx : x.isFinite) : (x == 0) = true ↔ x.signedUnits = 0 := by
  rw [beq_iff hx isFinite_zero, signedUnits_zero]

end CourseAdmission.Binary64
