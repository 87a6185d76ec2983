import CourseAdmission.Proofs.Binary64.Sum

/-!
How a little more or less changes what a number is rounded to.

Less than the last binary digit of a number that is not on the grid only matters if the number lies
in the middle between two doubles, and then only its sign does.
-/

namespace CourseAdmission.Binary64

/-- A multiple of the spacing that is less than half of it away is the rounded number. -/
theorem roundInt_eq_of_near {z g : Int} (hdvd : (spacing z.natAbs : Int) ∣ g)
    (hnear : 2 * (z - g).natAbs < spacing z.natAbs) : roundInt z = g := by
  have herror := two_mul_natAbs_sub_roundInt_le z
  have hround : spacing z.natAbs ∣ (roundInt z).natAbs := by
    rw [natAbs_roundInt]
    simpa using spacing_dvd_roundUnits z.natAbs 1
  have hdiff : spacing z.natAbs ∣ (roundInt z - g).natAbs :=
    Int.natCast_dvd.1 (Int.dvd_sub (Int.natCast_dvd.2 hround) hdvd)
  have := Nat.eq_zero_of_dvd_of_lt hdiff (by omega)
  omega

/-- Less than the last binary digit leaves a number that is not on the grid in its binade. -/
theorem spacing_add_eq {z δ : Int} {k : Nat} (hdvd : (2 ^ k : Int) ∣ z)
    (hgrid : ¬OnGrid z.natAbs) (hsmall : δ.natAbs < 2 ^ k) :
    spacing (z + δ).natAbs = spacing z.natAbs := by
  rw [two_pow_dvd_iff] at hdvd
  have hspacing := pow_lt_spacing hdvd hgrid
  rw [spacing_eq, Nat.pow_lt_pow_iff_right (by decide)] at hspacing
  have hk : k ≤ z.natAbs.log2 := by omega
  have hne : z.natAbs ≠ 0 := by
    intro hzero
    simp [hzero] at hspacing
  have hlow : 2 ^ z.natAbs.log2 + 2 ^ k ≤ z.natAbs := by
    apply add_le_of_dvd_of_lt (Nat.pow_dvd_pow 2 hk) hdvd
    apply lt_of_le_of_ne (Nat.log2_self_le hne)
    intro heq
    rw [← heq] at hgrid
    exact hgrid (onGrid_two_pow _)
  have hhigh : z.natAbs + 2 ^ k ≤ 2 ^ (z.natAbs.log2 + 1) :=
    add_le_of_dvd_of_lt hdvd (Nat.pow_dvd_pow 2 (Nat.le_succ_of_le hk)) Nat.lt_log2_self
  have hlog : (z + δ).natAbs.log2 = z.natAbs.log2 :=
    (Nat.log2_eq_iff (by omega)).2 ⟨by omega, by omega⟩
  rw [spacing_eq, spacing_eq, hlog]

theorem roundInt_add_eq {z δ g : Int} {k : Nat} (hdvd : (2 ^ k : Int) ∣ z)
    (hgrid : ¬OnGrid z.natAbs) (hsmall : δ.natAbs < 2 ^ k) (hg : (spacing z.natAbs : Int) ∣ g)
    (hnear : 2 * (z + δ - g).natAbs < spacing z.natAbs) : roundInt (z + δ) = g := by
  have hspacing := spacing_add_eq hdvd hgrid hsmall
  apply roundInt_eq_of_near
  · rwa [hspacing]
  · rwa [hspacing]

theorem spacing_dvd_roundInt (z : Int) : (spacing z.natAbs : Int) ∣ roundInt z := by
  rw [Int.natCast_dvd, natAbs_roundInt]
  simpa using spacing_dvd_roundUnits z.natAbs 1

/-- Off the middle between two doubles, less than the last digit does not change the rounding. -/
theorem roundInt_add_of_lt {z δ : Int} {k : Nat} (hdvd : (2 ^ k : Int) ∣ z)
    (hgrid : ¬OnGrid z.natAbs) (hsmall : δ.natAbs < 2 ^ k)
    (hlt : 2 * (z - roundInt z).natAbs < spacing z.natAbs) : roundInt (z + δ) = roundInt z := by
  apply roundInt_add_eq hdvd hgrid hsmall (spacing_dvd_roundInt z)
  have hloss := two_pow_dvd_iff.1 (Int.dvd_sub hdvd (two_pow_dvd_roundInt hdvd))
  have hspacing := pow_lt_spacing (two_pow_dvd_iff.1 hdvd) hgrid
  rw [spacing_eq, Nat.pow_lt_pow_iff_right (by decide)] at hspacing
  have hroom := add_le_of_dvd_of_lt (c := 2 ^ (k + 1))
    (by rw [Nat.pow_succ']; exact Nat.mul_dvd_mul_left 2 hloss)
    (by rw [spacing_eq]; exact Nat.pow_dvd_pow 2 hspacing) hlt
  rw [Nat.pow_succ] at hroom
  omega

/-- In the middle between two doubles, a little more on the side that rounding turned away from
    moves the result by one double. -/
theorem roundInt_add_of_sameSide {z δ : Int} {k : Nat} (hdvd : (2 ^ k : Int) ∣ z)
    (hgrid : ¬OnGrid z.natAbs) (hsmall : δ.natAbs < 2 ^ k)
    (htie : 2 * (z - roundInt z).natAbs = spacing z.natAbs)
    (hside : 0 < δ ∧ 0 < z - roundInt z ∨ δ < 0 ∧ z - roundInt z < 0) :
    roundInt (z + δ) = roundInt z + 2 * (z - roundInt z) := by
  apply roundInt_add_eq hdvd hgrid hsmall
  · apply Int.dvd_add (spacing_dvd_roundInt z)
    rw [Int.natCast_dvd, Int.natAbs_mul, ← htie]
    exact dvd_rfl
  · have hspacing := pow_lt_spacing (two_pow_dvd_iff.1 hdvd) hgrid
    omega

/-- A little more on the other side does not. -/
theorem roundInt_add_of_otherSide {z δ : Int} {k : Nat} (hdvd : (2 ^ k : Int) ∣ z)
    (hgrid : ¬OnGrid z.natAbs) (hsmall : δ.natAbs < 2 ^ k)
    (htie : 2 * (z - roundInt z).natAbs = spacing z.natAbs)
    (hside : 0 < δ ∧ z - roundInt z < 0 ∨ δ < 0 ∧ 0 < z - roundInt z) :
    roundInt (z + δ) = roundInt z := by
  apply roundInt_add_eq hdvd hgrid hsmall (spacing_dvd_roundInt z)
  have hspacing := pow_lt_spacing (two_pow_dvd_iff.1 hdvd) hgrid
  omega

/-- The number as far beyond the exact one as the rounded one is before it lies on the grid only in
    the middle between two doubles. -/
theorem not_onGrid_of_lt {z : Int} (hgrid : ¬OnGrid z.natAbs)
    (hlt : 2 * (z - roundInt z).natAbs < spacing z.natAbs) :
    ¬OnGrid (roundInt z + 2 * (z - roundInt z)).natAbs := by
  intro hmoved
  have hwide : 1 < spacing z.natAbs := by
    have := pow_lt_spacing (k := 0) (one_dvd _) hgrid
    omega
  have hlow : 2 ^ z.natAbs.log2 ≤ z.natAbs := by
    apply Nat.log2_self_le
    have := mul_spacing_le hwide
    omega
  have hpow : spacing z.natAbs ∣ 2 ^ z.natAbs.log2 := Nat.pow_dvd_pow 2 (Nat.sub_le _ _)
  have hround := Int.natCast_dvd.1 (spacing_dvd_roundInt z)
  have hbinade : 2 ^ z.natAbs.log2 ≤ (roundInt z).natAbs := by
    rw [natAbs_roundInt]
    exact le_roundUnits_of_le (onGrid_two_pow _) (by decide) (by omega)
  have hbeyond : 2 ^ z.natAbs.log2 ≤ (roundInt z + 2 * (z - roundInt z)).natAbs := by
    rcases Nat.lt_or_eq_of_le hbinade with hless | heq
    · have := add_le_of_dvd_of_lt hpow hround hless
      omega
    · omega
  have hspacing : spacing z.natAbs ∣ (roundInt z + 2 * (z - roundInt z)).natAbs := by
    have hlog : z.natAbs.log2 ≤ (roundInt z + 2 * (z - roundInt z)).natAbs.log2 := by
      rw [← Nat.log2_two_pow (n := z.natAbs.log2)]
      exact log2_le_log2 hbeyond
    have hdigits : spacing z.natAbs ∣ spacing (roundInt z + 2 * (z - roundInt z)).natAbs :=
      Nat.pow_dvd_pow 2 (Nat.sub_le_sub_right hlog 52)
    exact hdigits.trans hmoved
  have hdiff := Int.dvd_sub (Int.natCast_dvd.2 hspacing) (spacing_dvd_roundInt z)
  rw [add_sub_cancel_left, Int.natCast_dvd] at hdiff
  have hzero := Nat.eq_zero_of_dvd_of_lt hdiff (by omega)
  apply hgrid
  have heq : z = roundInt z := by omega
  rw [heq]
  exact onGrid_roundInt z

end CourseAdmission.Binary64
