import CourseAdmission.Decimal.Shortest
import Mathlib.Tactic.Ring
import CourseAdmission.Proofs.Binary64.Whole

/-!
The shortest decimal of a positive double lies among the reals that round to it.

The grid eighteen steps below the coarsest is finer than the gaps of the doubles, so one of the
grids that are tried has a point there.
-/

namespace CourseAdmission.Decimal

open Binary64 (unitLimit)

variable {tie : Tie} {units : Nat} {exponent : Int}

theorem spacing_pos (exponent : Int) : 0 < (spacing exponent).1 ∧ 0 < (spacing exponent).2 := by
  have hone : 0 < 4 * Binary64.unitsPerOne := Nat.mul_pos (by decide) Binary64.unitsPerOne_pos
  have hten (n : Nat) : 0 < Nat.pow 10 n := Nat.pow_pos (by decide)
  unfold spacing
  split
  · exact ⟨Nat.mul_pos (hten _) hone, Nat.one_pos⟩
  · exact ⟨hone, hten _⟩

theorem spacing_le (hunits : 0 < units) : Binary64.spacing units ≤ units := by
  have hlog := Nat.log2_self_le (Nat.ne_of_gt hunits)
  have hpow : 2 ^ Binary64.excessDigits units ≤ 2 ^ units.log2 :=
    Nat.pow_le_pow_right (by decide) (by unfold Binary64.excessDigits; omega)
  exact hpow.trans hlog

theorem interval_bounds (hunits : 0 < units) :
    0 < (interval units).low ∧ (interval units).low ≤ 4 * units ∧
      (interval units).high = 4 * units + 2 * Binary64.spacing units := by
  have hgap := spacing_le hunits
  unfold interval
  dsimp only
  refine ⟨?_, ?_, rfl⟩ <;> split <;> omega

theorem high_le (hunits : 0 < units) :
    (interval units).high ≤ 6 * Nat.pow 2 (units.log2 + 1) := by
  have hgap := spacing_le hunits
  have hlog : units < 2 ^ (units.log2 + 1) := Nat.lt_log2_self
  rw [(interval_bounds hunits).2.2, Nat.pow_eq]
  omega

theorem Interval.holds_le {i : Interval} {n d : Nat} (hholds : i.holds n d = true) :
    i.low * d ≤ n ∧ n ≤ i.high * d := by
  unfold Interval.holds at hholds
  split at hholds <;> simp at hholds <;> omega

theorem Interval.holds_of_le_of_le {i : Interval} {a b c d : Nat} (ha : i.holds a d = true)
    (hc : i.holds c d = true) (hab : a ≤ b) (hbc : b ≤ c) : i.holds b d = true := by
  unfold Interval.holds at *
  cases hends : i.endsBelong <;> simp [hends] at ha hc ⊢ <;> omega

/-- A positive double lies in its interval. -/
theorem holds_self (hunits : 0 < units) {d : Nat} (hd : 0 < d) :
    (interval units).holds (4 * units * d) d = true := by
  have hgap : 0 < Binary64.spacing units := Nat.two_pow_pos _
  have hlow : (interval units).low < 4 * units := by
    unfold interval
    dsimp only
    split <;> omega
  have hhigh : 4 * units < (interval units).high := by
    rw [(interval_bounds hunits).2.2]
    omega
  have hlow' := Nat.mul_lt_mul_of_pos_right hlow hd
  have hhigh' := Nat.mul_lt_mul_of_pos_right hhigh hd
  unfold Interval.holds
  split <;> simp [hlow', hhigh', hlow'.le, hhigh'.le]

/-- Zero does not round to a positive double. -/
theorem Interval.holds_pos (hunits : 0 < units) {n d : Nat} (hd : 0 < d)
    (hholds : (interval units).holds n d = true) : 0 < n :=
  Nat.lt_of_lt_of_le (Nat.mul_pos (interval_bounds hunits).1 hd) (holds_le hholds).1

/-- A point of a grid that stands for a double lies in its interval. -/
theorem holds_of_onGrid? {digits : Nat} (h : onGrid? tie units exponent = some digits) :
    (interval units).holds (digits * (spacing exponent).1) (spacing exponent).2 = true := by
  unfold onGrid? at h
  dsimp only at h
  split at h
  case h_1 => cases h
  case h_2 hbelow habove => cases h; exact hbelow
  case h_3 hbelow habove => cases h; exact habove
  case h_4 hbelow habove =>
    split at h
    · cases h; exact hbelow
    · split at h
      · cases h; exact habove
      · split at h
        · cases h; exact habove
        · split at h
          · cases h; exact hbelow
          · cases h; exact habove

/-- If a point of a grid lies in the interval of a double, so does one of the two next to it. -/
theorem onGrid?_isSome_of_holds (hunits : 0 < units) {point : Nat}
    (hpoint : (interval units).holds (point * (spacing exponent).1) (spacing exponent).2 = true) :
    (onGrid? tie units exponent).isSome := by
  obtain ⟨hn, hd⟩ := spacing_pos exponent
  have hself := holds_self hunits hd
  unfold onGrid?
  dsimp only
  generalize (spacing exponent).1 = n at *
  generalize (spacing exponent).2 = d at *
  have hbelow := Nat.div_mul_le_self (4 * units * d) n
  have habove : 4 * units * d ≤ (4 * units * d / n + 1) * n := by
    rw [Nat.mul_comm _ n]
    exact (Nat.lt_mul_div_succ _ hn).le
  have hnext : (interval units).holds (4 * units * d / n * n) d = true ∨
      (interval units).holds ((4 * units * d / n + 1) * n) d = true := by
    rcases Nat.lt_or_ge (4 * units * d / n) point with hless | hge
    · exact .inr (Interval.holds_of_le_of_le hself hpoint habove (Nat.mul_le_mul_right n hless))
    · exact .inl (Interval.holds_of_le_of_le hpoint hself (Nat.mul_le_mul_right n hge) hbelow)
  split
  case h_1 hbelow habove => simp [hbelow, habove] at hnext
  case h_2 => rfl
  case h_3 => rfl
  case h_4 =>
    split
    · rfl
    · split
      · rfl
      · cases tie with
        | upper => rfl
        | even => dsimp only; split <;> rfl

/-- A grid that is finer than the gaps of the doubles has a point for each of them. -/
theorem onGrid?_isSome (hunits : 0 < units)
    (hfine : (spacing exponent).1 < 2 * Binary64.spacing units * (spacing exponent).2) :
    (onGrid? tie units exponent).isSome := by
  obtain ⟨hn, hd⟩ := spacing_pos exponent
  suffices h : (interval units).holds
      ((4 * units * (spacing exponent).2 / (spacing exponent).1 + 1) * (spacing exponent).1)
      (spacing exponent).2 = true from onGrid?_isSome_of_holds hunits h
  generalize (spacing exponent).1 = n at *
  generalize (spacing exponent).2 = d at *
  obtain ⟨-, hlow, hhigh⟩ := interval_bounds hunits
  have hrest := Nat.lt_div_mul_add (a := 4 * units * d) hn
  have hbelow := Nat.div_mul_le_self (4 * units * d) n
  have hless : (interval units).low * d < (4 * units * d / n + 1) * n := by
    have := Nat.mul_le_mul_right d hlow
    rw [Nat.add_one_mul]
    omega
  have hmore : (4 * units * d / n + 1) * n < (interval units).high * d := by
    have := Nat.add_mul (4 * units) (2 * Binary64.spacing units) d
    rw [hhigh, Nat.add_one_mul]
    omega
  unfold Interval.holds
  split
  · simp [hless.le, hmore.le]
  · simp [hless, hmore]

theorem spacing_eq (exponent : Int) :
    spacing exponent =
      (10 ^ exponent.toNat * (4 * Binary64.unitsPerOne), 10 ^ (-exponent).toNat) := by
  unfold spacing
  split
  case isTrue hwhole =>
    rw [Int.toNat_of_nonpos (by omega : -exponent ≤ 0), Nat.pow_zero, Nat.pow_eq]
  case isFalse hplaces =>
    rw [Int.toNat_of_nonpos (by omega : exponent ≤ 0), Nat.pow_zero, Nat.one_mul, Nat.pow_eq]

/-- Each grid is ten times coarser than the one before it. -/
theorem spacing_add (exponent : Int) (steps : Nat) :
    (spacing (exponent + steps)).1 * (spacing exponent).2 =
      10 ^ steps * (spacing exponent).1 * (spacing (exponent + steps)).2 := by
  have hpow : 10 ^ (exponent + steps).toNat * 10 ^ (-exponent).toNat =
      10 ^ steps * 10 ^ exponent.toNat * 10 ^ (-(exponent + steps)).toNat := by
    rw [← Nat.pow_add, ← Nat.pow_add, ← Nat.pow_add]
    congr 1
    omega
  simp only [spacing_eq]
  generalize 4 * Binary64.unitsPerOne = quarters
  calc 10 ^ (exponent + steps).toNat * quarters * 10 ^ (-exponent).toNat
      = 10 ^ (exponent + steps).toNat * 10 ^ (-exponent).toNat * quarters := by ring
    _ = 10 ^ steps * (10 ^ exponent.toNat * quarters) * 10 ^ (-(exponent + steps)).toNat := by
      rw [hpow]
      ring

theorem spacing_mono {e e' : Int} (hle : e ≤ e') :
    (spacing e).1 * (spacing e').2 ≤ (spacing e').1 * (spacing e).2 := by
  obtain ⟨steps, rfl⟩ := Int.le.dest hle
  rw [spacing_add, Nat.mul_assoc]
  exact Nat.le_mul_of_pos_left _ (Nat.pow_pos (by decide))

/-- The exponent of the finest grid that the shortest decimal of a double of so many binary digits
    can lie on, eighteen steps below the coarsest one. -/
def finestExponent (log : Nat) : Int := ((log : Int) - 1073) * 30103 / 100000 + 1 - 18

/-- The grid is finer than the gaps of the doubles, but the doubles are fewer than `2 ^ 63` steps
    on it away from zero. -/
def Fitting (log : Nat) : Prop :=
  (spacing (finestExponent log)).1 < 2 * Nat.pow 2 (log - 52) * (spacing (finestExponent log)).2 ∧
    6 * Nat.pow 2 (log + 1) * (spacing (finestExponent log)).2 ≤
      Nat.pow 2 63 * (spacing (finestExponent log)).1

instance (log : Nat) : Decidable (Fitting log) := inferInstanceAs (Decidable (_ ∧ _))

theorem fitting_of_lt {log : Nat} (hlog : log < 2098) : Fitting log := by
  -- in rows of 50, for the evaluation takes time quadratic in the length of a row
  have hrows : ∀ row < 42, ∀ place < 50, Fitting (50 * row + place) := by decide +kernel
  have h := hrows (log / 50) (by omega) (log % 50) (by omega)
  rwa [Nat.div_add_mod] at h

theorem log2_lt (hunits : 0 < units) (hbounded : units < unitLimit) : units.log2 < 2098 := by
  obtain ⟨k, hk, hlimit⟩ : ∃ k, k = 2098 ∧ unitLimit = 2 ^ k := by
    obtain ⟨k, hk⟩ : ∃ k, k = 2098 := ⟨2098, rfl⟩
    refine ⟨k, hk, ?_⟩
    unfold unitLimit
    rw [← hk, Nat.pow_eq]
  rw [hlimit] at hbounded
  exact hk ▸ (Nat.log2_lt (Nat.ne_of_gt hunits)).2 hbounded

/-- A search that comes by a grid with a point for the double ends there or before it. -/
theorem shortestFrom_spec {grids : Nat} {steps : Nat} (hsteps : steps < grids)
    (hsome : (onGrid? tie units (exponent - steps)).isSome) :
    onGrid? tie units (shortestFrom tie units grids exponent).exponent =
        some (shortestFrom tie units grids exponent).digits ∧
      exponent - steps ≤ (shortestFrom tie units grids exponent).exponent ∧
      (shortestFrom tie units grids exponent).exponent ≤ exponent := by
  induction grids generalizing exponent steps with
  | zero => omega
  | succ grids ih =>
    unfold shortestFrom
    cases hfirst : onGrid? tie units exponent with
    | some digits => exact ⟨hfirst, by dsimp only; omega, le_refl exponent⟩
    | none =>
      cases steps with
      | zero => simp [hfirst] at hsome
      | succ steps =>
        have hrest : exponent - 1 - (steps : Int) = exponent - (steps + 1 : Nat) := by omega
        obtain ⟨hgrid, hlow, hhigh⟩ := @ih (exponent - 1) steps (by omega) (by rwa [hrest])
        dsimp only
        exact ⟨hgrid, by omega, by omega⟩

/-- The shortest decimal of a positive double is a point for it on a grid that is not too fine. -/
theorem shortest_spec (tie : Tie) (hunits : 0 < units) (hbounded : units < unitLimit) :
    onGrid? tie units (shortest tie units).exponent = some (shortest tie units).digits ∧
      finestExponent units.log2 ≤ (shortest tie units).exponent ∧
      (shortest tie units).exponent ≤ finestExponent units.log2 + 18 := by
  have hfine := (fitting_of_lt (log2_lt hunits hbounded)).1
  have hsome : (onGrid? tie units (coarsestExponent units - (18 : Nat))).isSome :=
    onGrid?_isSome hunits hfine
  obtain ⟨hgrid, hlow, hhigh⟩ := shortestFrom_spec (show 18 < 19 by decide) hsome
  unfold shortest
  rw [if_neg (Nat.ne_of_gt hunits)]
  exact ⟨hgrid, hlow, by unfold finestExponent; unfold coarsestExponent at hhigh ⊢; omega⟩

theorem shortest_digits_pos (tie : Tie) (hunits : 0 < units) (hbounded : units < unitLimit) :
    0 < (shortest tie units).digits := by
  have hholds := holds_of_onGrid? (shortest_spec tie hunits hbounded).1
  exact Nat.pos_of_mul_pos_right (Interval.holds_pos hunits (spacing_pos _).2 hholds)

/-- The digits of the shortest decimal are a number of 63 bits. -/
theorem shortest_digits_le (tie : Tie) (hunits : 0 < units) (hbounded : units < unitLimit) :
    (shortest tie units).digits ≤ 2 ^ 63 := by
  obtain ⟨hgrid, hlow, -⟩ := shortest_spec tie hunits hbounded
  have hholds := (Interval.holds_le (holds_of_onGrid? hgrid)).2
  have hmono := spacing_mono hlow
  have hcoarse := (fitting_of_lt (log2_lt hunits hbounded)).2
  have hn := (spacing_pos (shortest tie units).exponent).1
  have hd' := (spacing_pos (finestExponent units.log2)).2
  have hhigh := high_le hunits
  generalize (shortest tie units).digits = digits at *
  generalize (spacing (shortest tie units).exponent).1 = n at *
  generalize (spacing (shortest tie units).exponent).2 = d at *
  generalize (spacing (finestExponent units.log2)).1 = n' at *
  generalize (spacing (finestExponent units.log2)).2 = d' at *
  apply Nat.le_of_mul_le_mul_right _ (Nat.mul_pos hn hd')
  calc digits * (n * d') = digits * n * d' := by ring
    _ ≤ (interval units).high * d * d' := Nat.mul_le_mul_right d' hholds
    _ ≤ 6 * Nat.pow 2 (units.log2 + 1) * d * d' :=
      Nat.mul_le_mul_right d' (Nat.mul_le_mul_right d hhigh)
    _ = 6 * Nat.pow 2 (units.log2 + 1) * d' * d := by ring
    _ ≤ Nat.pow 2 63 * n' * d := Nat.mul_le_mul_right d hcoarse
    _ = 2 ^ 63 * (n' * d) := by rw [Nat.pow_eq]; ring
    _ ≤ 2 ^ 63 * (n * d') := Nat.mul_le_mul_left _ hmono

/-- The exponent of the shortest decimal is a number of few digits. -/
theorem shortest_exponent_bounds (tie : Tie) (hunits : 0 < units) (hbounded : units < unitLimit) :
    -341 ≤ (shortest tie units).exponent ∧ (shortest tie units).exponent ≤ 309 := by
  obtain ⟨-, hlow, hhigh⟩ := shortest_spec tie hunits hbounded
  have hlog := log2_lt hunits hbounded
  unfold finestExponent at hlow hhigh
  omega

end CourseAdmission.Decimal
