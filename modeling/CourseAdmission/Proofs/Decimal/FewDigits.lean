import CourseAdmission.Proofs.Binary64.Quotient
import CourseAdmission.Proofs.Decimal.Shortest

/-!
Decimals of few digits are the shortest ones of their doubles.

The reals that round to a double lie in its interval, and at most one point of a grid does whose
steps are wider than the interval.
-/

namespace CourseAdmission

open Binary64 (OnGrid roundUnits unitsPerOne significandLimit)

namespace Decimal

variable {tie : Tie} {units : Nat} {exponent : Int}

theorem Interval.holds_of {i : Interval} {n d : Nat} (hlow : i.low * d ≤ n) (hhigh : n ≤ i.high * d)
    (hends : i.low * d = n ∨ n = i.high * d → i.endsBelong = true) : i.holds n d = true := by
  unfold Interval.holds
  split
  case isTrue => simp [hlow, hhigh]
  case isFalse hout =>
    have hlow' := hlow.lt_of_ne fun heq => hout (hends (.inl heq))
    have hhigh' := hhigh.lt_of_ne fun heq => hout (hends (.inr heq))
    simp [hlow', hhigh']

/-- The spacing of a number of this many binary digits. -/
theorem spacing_eq_pow {k : Nat} (hlow : k = 0 ∨ 2 ^ (52 + k) ≤ units)
    (hhigh : units < 2 ^ (53 + k)) :
    Binary64.spacing units = 2 ^ k := by
  have hlog : units.log2 - 52 = k := by
    by_cases hzero : units = 0
    · rcases hlow with rfl | hlow
      · simp [hzero]
      · have := Nat.two_pow_pos (52 + k)
        omega
    · have hless := (Nat.log2_lt hzero).2 hhigh
      rcases hlow with rfl | hlow
      · omega
      · have := (Nat.le_log2 hzero).2 hlow
        omega
  rw [Binary64.spacing_eq, hlog]

/-- A rounded quotient has the binary digits of the quotient, or it is the next power of two. -/
theorem roundUnits_binade (n : Nat) {d : Nat} (hd : 0 < d) {k : Nat}
    (hspacing : Binary64.spacing (n / d) = 2 ^ k) :
    (k = 0 ∨ 2 ^ (52 + k) * d ≤ n ∧ 2 ^ (52 + k) ≤ roundUnits n d) ∧
      roundUnits n d ≤ 2 ^ (53 + k) := by
  have hdvd (e : Nat) : Binary64.spacing (n / d) ∣ 2 ^ (e + k) := by
    rw [hspacing]
    exact Nat.pow_dvd_pow 2 (Nat.le_add_left k e)
  constructor
  · refine or_iff_not_imp_left.2 fun hk => ?_
    have hwide : 1 < Binary64.spacing (n / d) := by
      rw [hspacing]
      exact Nat.one_lt_two_pow hk
    have hquotient : 2 ^ (52 + k) * d ≤ n := by
      have hbelow := Binary64.mul_spacing_le hwide
      rw [hspacing, ← Nat.pow_add] at hbelow
      exact (Nat.le_div_iff_mul_le hd).1 hbelow
    exact ⟨hquotient, Binary64.le_roundUnits_of_dvd hd (hdvd 52) hquotient⟩
  · apply Binary64.roundUnits_le_of_dvd hd (hdvd 53)
    have habove := Binary64.lt_mul_spacing (n / d)
    rw [hspacing, significandLimit, Nat.pow_eq, ← Nat.pow_add] at habove
    exact ((Nat.div_lt_iff_lt_mul hd).1 habove).le

/-- Whatever rounds to a double lies in its interval. -/
theorem holds_roundUnits (n : Nat) {d : Nat} (hd : 0 < d) :
    (interval (roundUnits n d)).holds (4 * n) d = true := by
  obtain ⟨hhigh, hlow, htie⟩ := Binary64.roundUnits_spec n hd
  obtain ⟨k, hk⟩ : ∃ k, Binary64.spacing (n / d) = 2 ^ k := ⟨_, rfl⟩
  obtain ⟨hbinade, hle⟩ := roundUnits_binade n hd hk
  rw [hk] at hhigh hlow htie
  generalize roundUnits n d = units at *
  simp only [Nat.add_mul, Nat.mul_assoc] at hhigh hlow htie
  have hstep : 0 < 2 ^ k * d := Nat.mul_pos (Nat.two_pow_pos k) hd
  have heven {gap : Nat} (hgap : 0 < gap) : 2 ^ 52 * gap / gap % 2 = 0 := by
    rw [Nat.mul_div_cancel _ hgap]
    decide
  unfold interval significandLimit
  rw [Nat.pow_eq]
  rcases hle.lt_or_eq with hless | hequal
  · rw [spacing_eq_pow (hbinade.imp_right And.right) hless]
    dsimp only
    split
    case isTrue hbound =>
      -- the least number of so many binary digits: no quotient below it is rounded up to it
      have hunits : units = 2 ^ 52 * 2 ^ k := by omega
      rcases hbinade with rfl | ⟨hquotient, -⟩
      · omega
      rw [Nat.pow_add, ← hunits] at hquotient
      apply Interval.holds_of
      · simp only [Nat.sub_mul, Nat.mul_assoc]
        omega
      · simp only [Nat.add_mul, Nat.mul_assoc]
        omega
      · exact fun _ => decide_eq_true (hunits ▸ heven (Nat.two_pow_pos k))
    case isFalse =>
      apply Interval.holds_of
      · simp only [Nat.sub_mul, Nat.mul_assoc]
        omega
      · simp only [Nat.add_mul, Nat.mul_assoc]
        omega
      · intro hends
        simp only [Nat.sub_mul, Nat.add_mul, Nat.mul_assoc] at hends
        rcases Nat.eq_zero_or_pos units with rfl | hpos
        · simp
        have hroom : 2 ^ k * d ≤ units * d := by
          apply Nat.mul_le_mul_right
          rcases hbinade with rfl | ⟨-, hbinade⟩
          · exact hpos
          · exact (Nat.pow_le_pow_right (by decide) (by omega)).trans hbinade
        exact decide_eq_true (htie (by omega))
  · -- the quotient was rounded up to a number of one more binary digit
    have hgap : Binary64.spacing units = 2 * 2 ^ k := by
      rw [hequal, ← Nat.pow_succ']
      exact spacing_eq_pow (.inr (Nat.pow_le_pow_right (by decide) (by omega)))
        (Nat.pow_lt_pow_right (by decide) (by omega))
    have hunits : units = 2 ^ 52 * (2 * 2 ^ k) := by
      rw [hequal, Nat.pow_add]
      omega
    have hpow := Nat.two_pow_pos k
    rw [hgap]
    dsimp only
    rw [if_pos (by omega), Nat.mul_div_cancel_left _ (by decide)]
    apply Interval.holds_of
    · simp only [Nat.sub_mul, Nat.mul_assoc]
      omega
    · simp only [Nat.add_mul, Nat.mul_assoc]
      omega
    · exact fun _ => decide_eq_true (hunits ▸ heven (by omega))

theorem Interval.holds_congr {i : Interval} {n d n' d' : Nat} (hd : 0 < d) (hd' : 0 < d')
    (heq : n * d' = n' * d) (h : i.holds n d = true) : i.holds n' d' = true := by
  have hle (bound : Nat) : bound * d ≤ n ↔ bound * d' ≤ n' := by
    rw [← Nat.mul_le_mul_right_iff hd', heq, Nat.mul_right_comm, Nat.mul_le_mul_right_iff hd]
  have hge (bound : Nat) : n ≤ bound * d ↔ n' ≤ bound * d' := by
    rw [← Nat.mul_le_mul_right_iff hd', heq, Nat.mul_right_comm, Nat.mul_le_mul_right_iff hd]
  unfold Interval.holds at *
  simpa only [← Nat.not_le, hle, hge] using h

/-- The shortest decimal is not on a finer grid than one with a point for the double. -/
theorem le_shortest_exponent (tie : Tie) (hunits : 0 < units)
    (hbounded : units < Binary64.unitLimit)
    (hcoarsest : exponent ≤ finestExponent units.log2 + 18)
    (hsome : (onGrid? tie units exponent).isSome) : exponent ≤ (shortest tie units).exponent := by
  by_cases hfine : exponent ≤ finestExponent units.log2
  · exact hfine.trans (shortest_spec tie hunits hbounded).2.1
  · obtain ⟨steps, hsteps⟩ := Int.le.dest hcoarsest
    have hstart : coarsestExponent units - steps = exponent := by
      unfold finestExponent at hsteps
      unfold coarsestExponent
      omega
    rw [shortest, if_neg (Nat.ne_of_gt hunits)]
    rw [← hstart] at hsome ⊢
    exact (shortestFrom_spec (by omega : steps < 19) hsome).2.1

/-- A grid with a positive point for a double is not coarser than the one that the search starts
    from. -/
theorem exponent_le_of_holds (hunits : 0 < units) (hbounded : units < Binary64.unitLimit)
    {point : Nat} (hpoint : 0 < point)
    (hholds : (interval units).holds (point * (spacing exponent).1) (spacing exponent).2 = true) :
    exponent ≤ finestExponent units.log2 + 18 := by
  by_contra hgreater
  have hmono := spacing_mono (show finestExponent units.log2 + (19 : Nat) ≤ exponent by omega)
  have hadd := spacing_add (finestExponent units.log2) 19
  have hcoarse := (fitting_of_lt (log2_lt hunits hbounded)).2
  have hn' := (spacing_pos (finestExponent units.log2)).1
  have hd' := (spacing_pos (finestExponent units.log2)).2
  have hd'' := (spacing_pos (finestExponent units.log2 + (19 : Nat))).2
  have hd := (spacing_pos exponent).2
  have hstep := (Nat.le_mul_of_pos_left (spacing exponent).1 hpoint).trans
    (Interval.holds_le hholds).2
  have hhigh := high_le hunits
  generalize (spacing exponent).1 = n at *
  generalize (spacing exponent).2 = d at *
  generalize spacing (finestExponent units.log2 + (19 : Nat)) = next at *
  generalize (spacing (finestExponent units.log2)).1 = n' at *
  generalize (spacing (finestExponent units.log2)).2 = d' at *
  -- the steps of the next grid would be at most `2 ^ 63` of those of the finest one
  have hfew : 10 ^ 19 * (n' * d * next.2) ≤ 2 ^ 63 * (n' * d * next.2) :=
    calc 10 ^ 19 * (n' * d * next.2) = 10 ^ 19 * n' * next.2 * d := by ring
      _ = next.1 * d * d' := by rw [← hadd]; ring
      _ ≤ n * next.2 * d' := Nat.mul_le_mul_right d' hmono
      _ ≤ (interval units).high * d * next.2 * d' :=
        Nat.mul_le_mul_right d' (Nat.mul_le_mul_right next.2 hstep)
      _ ≤ 6 * Nat.pow 2 (units.log2 + 1) * d * next.2 * d' := by gcongr
      _ = 6 * Nat.pow 2 (units.log2 + 1) * d' * (d * next.2) := by ring
      _ ≤ Nat.pow 2 63 * n' * (d * next.2) := Nat.mul_le_mul_right _ hcoarse
      _ = 2 ^ 63 * (n' * d * next.2) := by rw [Nat.pow_eq]; ring
  have hpos := Nat.mul_pos (Nat.mul_pos hn' hd) hd''
  omega

/-- On a grid that is wider than the interval of a double there is only one point for it. -/
theorem eq_of_holds_of_holds (hunits : 0 < units) {n d p q : Nat}
    (hwide : 4 * Binary64.spacing units * d < n) (hp : (interval units).holds (p * n) d = true)
    (hq : (interval units).holds (q * n) d = true) : p = q := by
  have hlow : 4 * units ≤ (interval units).low + 2 * Binary64.spacing units := by
    unfold interval
    dsimp only
    split <;> omega
  have hwidth : (interval units).high * d ≤ (interval units).low * d +
      4 * Binary64.spacing units * d := by
    rw [← Nat.add_mul, (interval_bounds hunits).2.2]
    exact Nat.mul_le_mul_right d (by omega)
  have hle {p q : Nat} (hp : (interval units).holds (p * n) d = true)
      (hq : (interval units).holds (q * n) d = true) : p ≤ q := by
    by_contra hgreater
    have hstep := Nat.mul_le_mul_right n (Nat.succ_le_of_lt (Nat.not_le.1 hgreater))
    have hhigh := (Interval.holds_le hp).2
    have hlow := (Interval.holds_le hq).1
    rw [Nat.succ_mul] at hstep
    omega
  exact Nat.le_antisymm (hle hp hq) (hle hq hp)

theorem tenPow_lt_unitsPerOne : 10 ^ 22 < unitsPerOne := by
  obtain ⟨k, hlarge, hk⟩ := Binary64.unitsPerOne_eq_pow
  rw [hk]
  exact Nat.lt_of_lt_of_le (by decide) (Nat.pow_le_pow_right (by decide) hlarge.le)

/-- The doubles near a decimal of at most 15 digits are nearer to each other than such decimals. -/
theorem spacing_roundUnits_lt {digits places : Nat} (hdigits : digits < 10 ^ 15)
    (hplaces : places ≤ 22) :
    Binary64.spacing (roundUnits (digits * unitsPerOne) (10 ^ places)) * 10 ^ places <
      unitsPerOne := by
  have hten : 0 < 10 ^ places := Nat.pow_pos (by decide)
  obtain ⟨-, hlow, -⟩ := Binary64.roundUnits_spec (digits * unitsPerOne) hten
  have hspacing : Binary64.spacing (digits * unitsPerOne / 10 ^ places) ≤
      Binary64.spacing (roundUnits (digits * unitsPerOne) (10 ^ places)) :=
    Binary64.spacing_div_le _ hten
  have hpow : 10 ^ places ≤ 10 ^ 22 := Nat.pow_le_pow_right (by decide) hplaces
  have hone := tenPow_lt_unitsPerOne
  generalize Binary64.spacing (digits * unitsPerOne / 10 ^ places) = gap at *
  generalize roundUnits (digits * unitsPerOne) (10 ^ places) = units at *
  rcases Nat.lt_or_ge 1 (Binary64.spacing units) with hwide | hnarrow
  · have hbelow := Nat.mul_le_mul_right (10 ^ places) (Binary64.mul_spacing_le hwide)
    have hgap := Nat.mul_le_mul_right (10 ^ places) hspacing
    have hvalue : digits * unitsPerOne ≤ 10 ^ 15 * unitsPerOne :=
      Nat.mul_le_mul_right _ hdigits.le
    rw [Nat.mul_assoc] at hbelow hlow
    omega
  · calc Binary64.spacing units * 10 ^ places ≤ 1 * 10 ^ places := Nat.mul_le_mul_right _ hnarrow
      _ ≤ 1 * 10 ^ 22 := Nat.mul_le_mul_left 1 hpow
      _ < unitsPerOne := by omega

/-- A decimal of at most 15 digits and 22 places is the shortest one of its double, but for zeros at
    its end. -/
theorem shortest_roundUnits (tie : Tie) {digits places : Nat} (hpos : 0 < digits)
    (hdigits : digits < 10 ^ 15) (hplaces : places ≤ 22)
    (hbounded : roundUnits (digits * unitsPerOne) (10 ^ places) < Binary64.unitLimit) :
    ∃ zeros : Nat,
      (shortest tie (roundUnits (digits * unitsPerOne) (10 ^ places))).exponent = -places + zeros ∧
      (shortest tie (roundUnits (digits * unitsPerOne) (10 ^ places))).digits * 10 ^ zeros =
        digits := by
  have hten : 0 < 10 ^ places := Nat.pow_pos (by decide)
  have hwide := spacing_roundUnits_lt hdigits hplaces
  have hholds := holds_roundUnits (digits * unitsPerOne) hten
  have hunits : 0 < roundUnits (digits * unitsPerOne) (10 ^ places) := by
    apply Binary64.le_roundUnits_of_le (Binary64.onGrid_of_le (by decide)) hten
    calc 1 * 10 ^ places ≤ 1 * 10 ^ 22 :=
          Nat.mul_le_mul_left 1 (Nat.pow_le_pow_right (by decide) hplaces)
      _ ≤ 1 * unitsPerOne := Nat.mul_le_mul_left 1 tenPow_lt_unitsPerOne.le
      _ ≤ digits * unitsPerOne := Nat.mul_le_mul_right _ hpos
  generalize roundUnits (digits * unitsPerOne) (10 ^ places) = units at *
  have hgrid : spacing (-places) = (4 * unitsPerOne, 10 ^ places) := by
    simp [spacing_eq]
  have hpoint : (interval units).holds (digits * (spacing (-places)).1) (spacing (-places)).2 =
      true := by
    rw [hgrid, Nat.mul_left_comm]
    exact hholds
  obtain ⟨zeros, hzeros⟩ := Int.le.dest (le_shortest_exponent tie hunits hbounded
    (exponent_le_of_holds hunits hbounded hpos hpoint) (onGrid?_isSome_of_holds hunits hpoint))
  refine ⟨zeros, hzeros.symm, ?_⟩
  have hshortest := holds_of_onGrid? (shortest_spec tie hunits hbounded).1
  rw [← hzeros] at hshortest
  apply eq_of_holds_of_holds hunits (n := 4 * unitsPerOne) (d := 10 ^ places)
  · rw [Nat.mul_assoc]
    omega
  · refine Interval.holds_congr (spacing_pos _).2 hten ?_ hshortest
    have hadd := spacing_add (-places) zeros
    rw [hgrid] at hadd
    dsimp only at hadd
    rw [Nat.mul_assoc, hadd]
    ring
  · rw [hgrid] at hpoint
    exact hpoint

end Decimal

end CourseAdmission
