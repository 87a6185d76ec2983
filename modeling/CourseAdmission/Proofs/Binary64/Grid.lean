import CourseAdmission.Binary64.Rounding
import Mathlib.Tactic.Linarith
import Mathlib.Tactic.Ring

/-!
The grid of binary64 numbers, and where a quotient is rounded to.

Rounding is monotone, it leaves numbers on the grid alone, and no number on the grid is nearer than
the rounded one.
-/

namespace CourseAdmission

/-- What rounding to the nearest number means: the error is at most a half, and exactly a half only
    at an even result. -/
theorem nearestEven_spec (n : Nat) {d : Nat} (hd : 0 < d) :
    2 * n ≤ (2 * nearestEven n d + 1) * d ∧ 2 * nearestEven n d * d ≤ 2 * n + d ∧
      (2 * n = (2 * nearestEven n d + 1) * d ∨ 2 * nearestEven n d * d = 2 * n + d →
        nearestEven n d % 2 = 0) := by
  have hsplit := Nat.div_add_mod n d
  have hmod := Nat.mod_lt n hd
  have hdown : (2 * (n / d) + 1) * d = 2 * (d * (n / d)) + d := by ring
  have hup : (2 * (n / d + 1) + 1) * d = 2 * (d * (n / d)) + 3 * d := by ring
  have hdown' : 2 * (n / d) * d = 2 * (d * (n / d)) := by ring
  have hup' : 2 * (n / d + 1) * d = 2 * (d * (n / d)) + 2 * d := by ring
  unfold nearestEven
  split
  · rw [hup, hup']
    omega
  · rw [hdown, hdown']
    omega

theorem nearestEven_le_of_mul_le {n d m d' : Nat} (hd : 0 < d) (hd' : 0 < d')
    (hle : n * d' ≤ m * d) : nearestEven n d ≤ nearestEven m d' := by
  obtain ⟨_, hlow, heven⟩ := nearestEven_spec n hd
  obtain ⟨hhigh, _, heven'⟩ := nearestEven_spec m hd'
  by_contra hlt
  have hsucc : nearestEven m d' + 1 ≤ nearestEven n d := by omega
  have hscaled := Nat.mul_le_mul_right (d * d') (show
    2 * nearestEven m d' + 2 ≤ 2 * nearestEven n d by omega)
  have hlow' := Nat.mul_le_mul_right d' hlow
  have hhigh' := Nat.mul_le_mul_right d hhigh
  -- both quotients can only lie half way between the two results, which then are both even
  have hpos : 0 < d * d' := Nat.mul_pos hd hd'
  have htie : 2 * nearestEven n d * d = 2 * n + d := by
    apply Nat.eq_of_mul_eq_mul_right hd'
    nlinarith
  have htie' : 2 * m = (2 * nearestEven m d' + 1) * d' := by
    apply Nat.eq_of_mul_eq_mul_right hd
    nlinarith
  have hnext : nearestEven n d = nearestEven m d' + 1 := by
    apply Nat.le_antisymm _ hsucc
    by_contra hmore
    have := Nat.mul_le_mul_right (d * d') (show
      2 * nearestEven m d' + 4 ≤ 2 * nearestEven n d by omega)
    nlinarith
  have hpar := heven (.inr htie)
  have hpar' := heven' (.inl htie')
  omega

theorem nearestEven_mul_left (q : Nat) {d : Nat} (hd : 0 < d) : nearestEven (q * d) d = q := by
  unfold nearestEven
  rw [Nat.mul_mod_left, Nat.mul_div_cancel q hd, if_neg (by omega)]

namespace Binary64

theorem spacing_eq (units : Nat) : spacing units = 2 ^ (units.log2 - 52) := rfl

theorem spacing_pos (units : Nat) : 0 < spacing units := by
  rw [spacing_eq]
  positivity

theorem log2_le_log2 {a b : Nat} (hle : a ≤ b) : a.log2 ≤ b.log2 := by
  by_cases ha : a = 0
  · simp [ha]
  · exact (Nat.le_log2 (by omega)).2 ((Nat.log2_self_le ha).trans hle)

theorem spacing_dvd_spacing {a b : Nat} (hle : a ≤ b) : spacing a ∣ spacing b := by
  rw [spacing_eq, spacing_eq]
  apply Nat.pow_dvd_pow
  have := log2_le_log2 hle
  omega

theorem spacing_le_spacing {a b : Nat} (hle : a ≤ b) : spacing a ≤ spacing b :=
  Nat.le_of_dvd (spacing_pos b) (spacing_dvd_spacing hle)

theorem lt_mul_spacing (units : Nat) : units < significandLimit * spacing units :=
  (Nat.div_lt_iff_lt_mul (spacing_pos units)).1 (div_spacing_lt units)

/-- Where neighbours are more than a unit apart, a significand uses all of its digits. -/
theorem mul_spacing_le {units : Nat} (hspacing : 1 < spacing units) :
    2 ^ 52 * spacing units ≤ units := by
  have hlog : 52 < units.log2 := by
    by_contra hsmall
    rw [spacing_eq, show units.log2 - 52 = 0 by omega] at hspacing
    omega
  have hne : units ≠ 0 := by
    rintro rfl
    simp at hlog
  rw [spacing_eq, ← Nat.pow_add, show 52 + (units.log2 - 52) = units.log2 by omega]
  exact Nat.log2_self_le hne

/-- A multiple of a power of two is on the grid if the quotient has room in a significand. -/
theorem onGrid_of_dvd {units k : Nat} (hdvd : 2 ^ k ∣ units)
    (hle : units ≤ significandLimit * 2 ^ k) : OnGrid units := by
  obtain ⟨significand, rfl⟩ := hdvd
  rw [Nat.mul_comm]
  apply onGrid_mul_pow
  rw [Nat.mul_comm] at hle
  exact Nat.le_of_mul_le_mul_right hle (by positivity)

theorem onGrid_of_le {units : Nat} (hle : units ≤ significandLimit) : OnGrid units :=
  onGrid_of_dvd (k := 0) (one_dvd _) (by simpa using hle)

theorem onGrid_two_pow (k : Nat) : OnGrid (2 ^ k) :=
  onGrid_of_dvd dvd_rfl (Nat.le_mul_of_pos_left _ (by decide))

/-- Beyond the grid neighbours are further apart than the last binary digit of the number. -/
theorem pow_lt_spacing {units k : Nat} (hdvd : 2 ^ k ∣ units) (hgrid : ¬OnGrid units) :
    2 ^ k < spacing units := by
  by_contra hle
  rw [spacing_eq, Nat.not_lt, Nat.pow_le_pow_iff_right (by decide)] at hle
  exact hgrid ((Nat.pow_dvd_pow 2 hle).trans hdvd)

/-! Rounding -/

theorem roundUnits_eq (n d : Nat) :
    roundUnits n d = nearestEven n (d * spacing (n / d)) * spacing (n / d) := rfl

theorem spacing_dvd_roundUnits (n d : Nat) : spacing (n / d) ∣ roundUnits n d :=
  Nat.dvd_mul_left _ _

/-- Numbers on the grid of the rounded quotient bound it as they bound the quotient. -/
theorem roundUnits_le_of_dvd {n d bound : Nat} (hd : 0 < d) (hdvd : spacing (n / d) ∣ bound)
    (hle : n ≤ bound * d) : roundUnits n d ≤ bound := by
  obtain ⟨c, rfl⟩ := hdvd
  have hpos := Nat.mul_pos hd (spacing_pos (n / d))
  rw [roundUnits_eq, Nat.mul_comm (spacing (n / d)) c]
  apply Nat.mul_le_mul_right
  rw [← nearestEven_mul_left c hpos]
  apply nearestEven_le_of_mul_le hpos hpos
  apply Nat.mul_le_mul_right
  calc n ≤ spacing (n / d) * c * d := hle
    _ = c * (d * spacing (n / d)) := by ring

theorem le_roundUnits_of_dvd {n d bound : Nat} (hd : 0 < d) (hdvd : spacing (n / d) ∣ bound)
    (hle : bound * d ≤ n) : bound ≤ roundUnits n d := by
  obtain ⟨c, rfl⟩ := hdvd
  have hpos := Nat.mul_pos hd (spacing_pos (n / d))
  rw [roundUnits_eq, Nat.mul_comm (spacing (n / d)) c]
  apply Nat.mul_le_mul_right
  rw [← nearestEven_mul_left c hpos]
  apply nearestEven_le_of_mul_le hpos hpos
  apply Nat.mul_le_mul_right
  calc c * (d * spacing (n / d)) = spacing (n / d) * c * d := by ring
    _ ≤ n := hle

/-- A greater quotient is not rounded to a smaller number. -/
theorem roundUnits_le_roundUnits {n d m d' : Nat} (hd : 0 < d) (hd' : 0 < d')
    (hle : n * d' ≤ m * d) : roundUnits n d ≤ roundUnits m d' := by
  have hfloor : n / d ≤ m / d' := by
    rw [Nat.le_div_iff_mul_le hd']
    apply Nat.le_of_mul_le_mul_right _ hd
    calc n / d * d' * d = n / d * d * d' := by ring
      _ ≤ n * d' := Nat.mul_le_mul_right d' (Nat.div_mul_le_self n d)
      _ ≤ m * d := hle
  rcases Nat.lt_or_eq_of_le (spacing_le_spacing hfloor) with hlt | heq
  · -- a power of two separates quotients with different spacings
    have hlog : (n / d).log2 < (m / d').log2 := by
      by_contra hge
      have := Nat.le_antisymm (log2_le_log2 hfloor) (Nat.not_lt.1 hge)
      rw [spacing_eq, spacing_eq, this] at hlt
      omega
    have hne : m / d' ≠ 0 := by
      intro hzero
      simp [hzero] at hlog
    have hpow : n / d < 2 ^ (m / d').log2 :=
      Nat.lt_of_lt_of_le Nat.lt_log2_self (Nat.pow_le_pow_right (by decide) hlog)
    have hmid : roundUnits n d ≤ 2 ^ (m / d').log2 := by
      apply roundUnits_le_of_dvd hd
      · exact (spacing_dvd_spacing hpow.le).trans (onGrid_two_pow _)
      · exact ((Nat.div_lt_iff_lt_mul hd).1 hpow).le
    apply hmid.trans
    apply le_roundUnits_of_dvd hd'
    · exact Nat.pow_dvd_pow 2 (Nat.sub_le _ _)
    · exact (Nat.le_div_iff_mul_le hd').1 (Nat.log2_self_le hne)
  · rw [roundUnits_eq, roundUnits_eq, heq]
    apply Nat.mul_le_mul_right
    have hpos := spacing_pos (m / d')
    apply nearestEven_le_of_mul_le (Nat.mul_pos hd hpos) (Nat.mul_pos hd' hpos)
    calc n * (d' * spacing (m / d')) = n * d' * spacing (m / d') := by ring
      _ ≤ m * d * spacing (m / d') := Nat.mul_le_mul_right _ hle
      _ = m * (d * spacing (m / d')) := by ring

theorem roundUnits_zero (d : Nat) : roundUnits 0 d = 0 := by
  simp [roundUnits_eq, nearestEven]

theorem roundUnits_mul_left {units d : Nat} (hgrid : OnGrid units) (hd : 0 < d) :
    roundUnits (units * d) d = units := by
  have hdiv : units * d / d = units := Nat.mul_div_cancel units hd
  apply Nat.le_antisymm
  · exact roundUnits_le_of_dvd hd (by rwa [hdiv]) (Nat.le_refl _)
  · exact le_roundUnits_of_dvd hd (by rwa [hdiv]) (Nat.le_refl _)

theorem roundUnits_one {units : Nat} (hgrid : OnGrid units) : roundUnits units 1 = units := by
  simpa using roundUnits_mul_left hgrid (d := 1) (by decide)

theorem roundUnits_le_of_le {n d units : Nat} (hgrid : OnGrid units) (hd : 0 < d)
    (hle : n ≤ units * d) : roundUnits n d ≤ units :=
  (roundUnits_le_roundUnits hd hd (Nat.mul_le_mul_right d hle)).trans_eq
    (roundUnits_mul_left hgrid hd)

theorem le_roundUnits_of_le {n d units : Nat} (hgrid : OnGrid units) (hd : 0 < d)
    (hle : units * d ≤ n) : units ≤ roundUnits n d :=
  (roundUnits_mul_left hgrid hd).symm.trans_le
    (roundUnits_le_roundUnits hd hd (Nat.mul_le_mul_right d hle))

/-- The error of rounding is at most half the distance of neighbours, and exactly half of it only
    at an even significand. -/
theorem roundUnits_spec (n : Nat) {d : Nat} (hd : 0 < d) :
    2 * n ≤ (2 * roundUnits n d + spacing (n / d)) * d ∧
      2 * roundUnits n d * d ≤ 2 * n + spacing (n / d) * d ∧
      (2 * n = (2 * roundUnits n d + spacing (n / d)) * d ∨
        2 * roundUnits n d * d = 2 * n + spacing (n / d) * d →
        roundUnits n d / spacing (n / d) % 2 = 0) := by
  have hspacing := spacing_pos (n / d)
  obtain ⟨hhigh, hlow, heven⟩ := nearestEven_spec n (Nat.mul_pos hd hspacing)
  have hhigh' : (2 * nearestEven n (d * spacing (n / d)) + 1) * (d * spacing (n / d)) =
      (2 * roundUnits n d + spacing (n / d)) * d := by rw [roundUnits_eq]; ring
  have hlow' : 2 * nearestEven n (d * spacing (n / d)) * (d * spacing (n / d)) =
      2 * roundUnits n d * d := by rw [roundUnits_eq]; ring
  rw [hhigh'] at hhigh heven
  rw [hlow'] at hlow heven
  have hwidth : d * spacing (n / d) = spacing (n / d) * d := Nat.mul_comm _ _
  have hquotient : roundUnits n d / spacing (n / d) = nearestEven n (d * spacing (n / d)) := by
    rw [roundUnits_eq, Nat.mul_div_cancel _ hspacing]
  rw [hquotient, ← hwidth]
  exact ⟨hhigh, hlow, heven⟩

theorem onGrid_dvd_of_le {a b : Nat} (hgrid : OnGrid b) (hle : a ≤ b) : spacing a ∣ b :=
  (spacing_dvd_spacing hle).trans hgrid

/-- Below a number on the grid, a multiple of the spacing around `n` is at least as great. -/
theorem exists_dvd_between {n units : Nat} (hgrid : OnGrid units) (hle : units ≤ n) :
    ∃ bound, spacing n ∣ bound ∧ units ≤ bound ∧ bound ≤ n := by
  by_cases hn : n = 0
  · exact ⟨0, dvd_zero _, by omega, by omega⟩
  by_cases hpow : 2 ^ n.log2 ≤ units
  · have hlog : n.log2 = units.log2 := by
      apply Nat.le_antisymm _ (log2_le_log2 hle)
      exact (Nat.le_log2 (Nat.ne_of_gt (Nat.lt_of_lt_of_le (by positivity) hpow))).2 hpow
    refine ⟨units, ?_, Nat.le_refl _, hle⟩
    rw [spacing_eq, hlog]
    exact hgrid
  · exact ⟨2 ^ n.log2, Nat.pow_dvd_pow 2 (Nat.sub_le _ _), by omega, Nat.log2_self_le hn⟩

theorem add_le_of_dvd_of_lt {a b c : Nat} (ha : c ∣ a) (hb : c ∣ b) (hlt : a < b) : a + c ≤ b := by
  have := Nat.le_of_dvd (by omega) (Nat.dvd_sub hb ha)
  omega

/-- No number on the grid is nearer than the rounded one. -/
theorem roundUnits_nearest (n : Nat) {units : Nat} (hgrid : OnGrid units) :
    ((n : Int) - roundUnits n 1).natAbs ≤ ((n : Int) - units).natAbs := by
  obtain ⟨hhigh, hlow, -⟩ := roundUnits_spec n (d := 1) (by decide)
  have hdvd := spacing_dvd_roundUnits n 1
  simp only [Nat.div_one, Nat.mul_one] at hhigh hlow hdvd
  rcases Nat.le_total n units with hle | hle
  · have habove := roundUnits_le_of_le (d := 1) hgrid (by decide) (by simpa using hle)
    rcases Nat.lt_or_eq_of_le habove with hlt | heq
    · have := add_le_of_dvd_of_lt hdvd (onGrid_dvd_of_le hgrid hle) hlt
      omega
    · rw [heq]
  · have hbelow := le_roundUnits_of_le (d := 1) hgrid (by decide) (by simpa using hle)
    obtain ⟨bound, hbound, hge, hbn⟩ := exists_dvd_between hgrid hle
    rcases Nat.lt_or_ge bound (roundUnits n 1) with hlt | hge'
    · have := add_le_of_dvd_of_lt hbound hdvd hlt
      omega
    · omega

/-- A power of two that divides a number divides the rounded number too. -/
theorem pow_dvd_roundUnits {n k : Nat} (hdvd : 2 ^ k ∣ n) : 2 ^ k ∣ roundUnits n 1 := by
  by_cases hgrid : OnGrid n
  · rwa [roundUnits_one hgrid]
  · have hlt := pow_lt_spacing hdvd hgrid
    rw [spacing_eq, Nat.pow_lt_pow_iff_right (by decide)] at hlt
    have hspacing := spacing_dvd_roundUnits n 1
    rw [Nat.div_one, spacing_eq] at hspacing
    exact (Nat.pow_dvd_pow 2 hlt.le).trans hspacing

end Binary64

end CourseAdmission
