import CourseAdmission.Proofs.Binary64.Sum

/-!
Whole numbers as doubles: exact up to `2 ^ 53`, and what doubling and dividing by them gives.
-/

namespace CourseAdmission.Binary64

theorem unitsPerOne_eq_pow : ∃ k, 100 < k ∧ unitsPerOne = 2 ^ k := by
  obtain ⟨k, hk⟩ : ∃ k, k = 1074 := ⟨1074, rfl⟩
  refine ⟨k, by omega, ?_⟩
  unfold unitsPerOne
  rw [← hk, Nat.pow_eq]

theorem unitsPerOne_pos : 0 < unitsPerOne := by
  obtain ⟨k, -, hk⟩ := unitsPerOne_eq_pow
  rw [hk]
  exact Nat.two_pow_pos k

theorem onGrid_mul_unitsPerOne {n : Nat} (hn : n ≤ significandLimit) :
    OnGrid (n * unitsPerOne) := by
  obtain ⟨k, -, hk⟩ := unitsPerOne_eq_pow
  rw [hk]
  exact onGrid_mul_pow hn k

/-- Numbers of the size of one are not neighbours of whole numbers of units. -/
theorem one_lt_spacing {n : Nat} (hn : 0 < n) : 1 < spacing (n * unitsPerOne - 1) := by
  obtain ⟨k, hlarge, hk⟩ := unitsPerOne_eq_pow
  have hpow : 2 ^ 54 ≤ unitsPerOne := by
    rw [hk]
    exact Nat.pow_le_pow_right (by decide) (by omega)
  have hle : 2 ^ 53 ≤ n * unitsPerOne - 1 := by
    have := Nat.le_mul_of_pos_left unitsPerOne hn
    omega
  exact Nat.lt_of_lt_of_le (by decide) (spacing_le_spacing hle)

theorem unitLimit_eq_mul_unitsPerOne : ∃ k, 100 < k ∧ unitLimit = 2 ^ k * unitsPerOne := by
  obtain ⟨k, hk, hsmall⟩ : ∃ k, k + 1074 = 2098 ∧ 100 < k := ⟨1024, rfl, by decide⟩
  obtain ⟨l, hl⟩ : ∃ l, l = 1074 := ⟨1074, rfl⟩
  refine ⟨k, hsmall, ?_⟩
  unfold unitLimit unitsPerOne
  rw [← hk, ← hl, Nat.pow_eq, Nat.pow_eq, Nat.pow_add]

theorem mul_unitsPerOne_lt {n : Nat} (hn : n ≤ significandLimit) :
    n * unitsPerOne < unitLimit := by
  obtain ⟨k, hk, hlimit⟩ := unitLimit_eq_mul_unitsPerOne
  rw [hlimit]
  apply Nat.mul_lt_mul_of_pos_right _ unitsPerOne_pos
  exact hn.trans_lt (Nat.pow_lt_pow_right (by decide) (by omega : 53 < k))

/-- Whole numbers are exact as long as they fit into a significand. -/
theorem ofNat_eq {n : Nat} (hn : n ≤ significandLimit) :
    ofNat n = .finite false (n * unitsPerOne) (onGrid_mul_unitsPerOne hn)
      (mul_unitsPerOne_lt hn) := by
  have hround := roundUnits_one (onGrid_mul_unitsPerOne hn)
  rw [ofNat, ofQuotient_of_lt false (hround.trans_lt (mul_unitsPerOne_lt hn))]
  simp only [hround]

theorem ofNat_spec {n : Nat} (hn : n ≤ significandLimit) :
    (ofNat n).isFinite ∧ (ofNat n).signedUnits = (n * unitsPerOne : Nat) := by
  rw [ofNat_eq hn]
  exact ⟨rfl, rfl⟩

theorem onGrid_two_mul {units : Nat} (hgrid : OnGrid units) : OnGrid (2 * units) := by
  have hwidth := lt_mul_spacing units
  have hdvd : 2 ^ (units.log2 - 52) ∣ units := hgrid
  rw [spacing_eq] at hwidth
  apply onGrid_of_dvd (k := units.log2 - 52 + 1)
  · rw [Nat.pow_succ']
    exact Nat.mul_dvd_mul_left 2 hdvd
  · rw [Nat.pow_succ, ← Nat.mul_assoc]
    omega

/-- Doubling is exact. -/
theorem mul_two_spec {x : Binary64} (hx : x.isFinite)
    (hroom : 2 * x.signedUnits.natAbs < unitLimit) :
    (x * 2).isFinite ∧ (x * 2).signedUnits = 2 * x.signedUnits := by
  rw [natAbs_signedUnits] at hroom
  rw [show (2 : Binary64) = ofNat 2 from rfl, ofNat_eq (by decide)]
  obtain ⟨a, m, hgrid, _, rfl⟩ := exists_eq_finite hx
  have hround : roundUnits (m * (2 * unitsPerOne)) unitsPerOne = 2 * m := by
    rw [show m * (2 * unitsPerOne) = 2 * m * unitsPerOne by ring]
    exact roundUnits_mul_left (onGrid_two_mul hgrid) unitsPerOne_pos
  change (mul _ _).isFinite ∧ (mul _ _).signedUnits = _
  simp only [mul]
  rw [ofQuotient_of_lt _ (hround.trans_lt hroom)]
  refine ⟨rfl, ?_⟩
  cases a
  · change ((roundUnits _ _ : Nat) : Int) = 2 * (m : Int)
    rw [hround]
    push_cast
    rfl
  · change -((roundUnits _ _ : Nat) : Int) = 2 * -(m : Int)
    rw [hround]
    push_cast
    ring

end CourseAdmission.Binary64
