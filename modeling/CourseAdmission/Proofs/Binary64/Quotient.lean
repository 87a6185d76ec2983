import CourseAdmission.Proofs.Binary64.Whole

/-!
Quotients of doubles, and doubles taken to whole numbers.

A quotient by a positive number is the exact one rounded once. Dividing a double by a whole number
undoes an exact multiplication by it, and gives a double back that way only.
-/

namespace CourseAdmission.Binary64

/-- Equal quotients are rounded alike. -/
theorem roundUnits_congr {n d n' d' : Nat} (hd : 0 < d) (hd' : 0 < d') (heq : n * d' = n' * d) :
    roundUnits n d = roundUnits n' d' :=
  Nat.le_antisymm (roundUnits_le_roundUnits hd hd' heq.le)
    (roundUnits_le_roundUnits hd' hd heq.ge)

theorem roundUnits_mul_mul {n d c : Nat} (hd : 0 < d) (hc : 0 < c) :
    roundUnits (n * c) (d * c) = roundUnits n d :=
  roundUnits_congr (Nat.mul_pos hd hc) hd (by ring)

/-- A quotient that is rounded to a number on the grid lies below the next power of two. -/
theorem div_lt_of_roundUnits_eq {n d units : Nat} (hd : 0 < d) (hround : roundUnits n d = units) :
    n / d < 2 ^ (units.log2 + 1) := by
  by_contra hge
  have hle := le_roundUnits_of_le (onGrid_two_pow (units.log2 + 1)) hd
    ((Nat.le_div_iff_mul_le hd).1 (Nat.not_lt.1 hge))
  rw [hround] at hle
  have := Nat.lt_log2_self (n := units)
  omega

/-- A rounded quotient has at least the binary digits of the quotient. -/
theorem spacing_div_le (n : Nat) {d : Nat} (hd : 0 < d) :
    spacing (n / d) ≤ spacing (roundUnits n d) := by
  have hbinade : (n / d).log2 ≤ (roundUnits n d).log2 := by
    by_cases hzero : n / d = 0
    · simp [hzero]
    · have := (Nat.log2_lt hzero).2 (div_lt_of_roundUnits_eq hd rfl)
      omega
  exact Nat.pow_le_pow_right (by decide) (Nat.sub_le_sub_right hbinade 52)

/-- Dividing by a whole number gives a double back only as it undoes the multiplication of that
    double. -/
theorem roundUnits_eq_iff_eq_mul {total units n : Nat} (hn : 0 < n) (htotal : OnGrid total)
    (hunits : OnGrid units) (hproduct : OnGrid (n * units)) (hwide : 1 < spacing (units - 1)) :
    roundUnits total n = units ↔ total = n * units := by
  refine ⟨fun hround => ?_, fun heq => by rw [heq, Nat.mul_comm, roundUnits_mul_left hunits hn]⟩
  obtain ⟨hhigh, hlow, -⟩ := roundUnits_spec total hn
  have hspacing := spacing_div_le total hn
  rw [hround] at hhigh hlow hspacing
  have hwidth : 1 < spacing (total / n) := by
    by_contra hnarrow
    have hone : spacing (total / n) = 1 := by
      have := spacing_pos (total / n)
      omega
    rw [hone] at hlow
    have hnear : units - 1 ≤ total / n := by
      rw [Nat.le_div_iff_mul_le hn, Nat.sub_mul]
      rw [Nat.mul_assoc] at hlow
      omega
    have := spacing_le_spacing hnear
    omega
  have hbelow := Nat.mul_le_mul_right n (mul_spacing_le hwidth)
  have hquotient := Nat.div_mul_le_self total n
  rcases Nat.lt_trichotomy total (n * units) with hless | heq | hgreater
  · have hgap := add_le_of_dvd_of_lt htotal (onGrid_dvd_of_le hproduct hless.le) hless
    have hdigits := lt_mul_spacing total
    rw [significandLimit] at hdigits
    nlinarith
  · exact heq
  · have hgap := add_le_of_dvd_of_lt hproduct (onGrid_dvd_of_le htotal hgreater.le) hgreater
    have hdigits := lt_mul_spacing (n * units)
    have hunitsDigits := mul_spacing_le (hwidth.trans_le hspacing)
    have hscaled : n * (2 ^ 52 * spacing (total / n)) ≤ n * units :=
      Nat.mul_le_mul_left n ((Nat.mul_le_mul_left _ hspacing).trans hunitsDigits)
    rw [significandLimit] at hdigits
    nlinarith

variable {x y : Binary64}

theorem signedUnits_eq (x : Binary64) :
    x.signedUnits = if x.isNegative then -(x.units : Int) else x.units := by
  cases x with
  | nan => rfl
  | infinite negative => cases negative <;> rfl
  | finite negative => cases negative <;> rfl

theorem ofQuotient_spec {n d : Nat} (negative : Bool) (hlt : roundUnits n d < unitLimit) :
    (ofQuotient negative n d).isFinite ∧ (ofQuotient negative n d).isNegative = negative ∧
      (ofQuotient negative n d).units = roundUnits n d := by
  rw [ofQuotient_of_lt negative hlt]
  exact ⟨rfl, rfl, rfl⟩

theorem neg_ofQuotient (negative : Bool) (n d : Nat) :
    -ofQuotient negative n d = ofQuotient (!negative) n d := by
  change neg _ = _
  unfold ofQuotient
  split <;> rfl

theorem ofQuotient_congr {n d n' d' : Nat} (negative : Bool)
    (hround : roundUnits n d = roundUnits n' d') :
    ofQuotient negative n d = ofQuotient negative n' d' := by
  unfold ofQuotient
  simp only [hround]

theorem div_eq_ofQuotient (hx : x.isFinite) (hy : y.isFinite) (hne : y.units ≠ 0) :
    x / y = ofQuotient (x.isNegative != y.isNegative) (x.units * unitsPerOne) y.units := by
  obtain ⟨a, m, _, _, rfl⟩ := exists_eq_finite hx
  obtain ⟨b, n, _, _, rfl⟩ := exists_eq_finite hy
  change div _ _ = _
  simp only [div]
  exact if_neg hne

/-- A quotient by a positive number is the exact one rounded once. -/
theorem div_spec (hx : x.isFinite) (hy : y.isFinite) (hpos : 0 < y.signedUnits)
    (hlt : roundUnits (x.units * unitsPerOne) y.units < unitLimit) :
    (x / y).isFinite ∧ (x / y).signedUnits =
      if x.signedUnits < 0 then -(roundUnits (x.units * unitsPerOne) y.units : Int)
      else roundUnits (x.units * unitsPerOne) y.units := by
  rw [signedUnits_eq] at hpos
  have hsign : y.isNegative = false := by
    by_contra hnegative
    rw [if_pos (by simpa using hnegative)] at hpos
    omega
  rw [hsign, if_neg (by decide)] at hpos
  rw [div_eq_ofQuotient hx hy (by omega)]
  obtain ⟨hfinite, hnegative, hunits⟩ :=
    ofQuotient_spec (x.isNegative != y.isNegative) hlt
  refine ⟨hfinite, ?_⟩
  rw [signedUnits_eq, hnegative, hunits, hsign, Bool.bne_false, signedUnits_eq x]
  by_cases hx' : x.isNegative = true
  · by_cases hzero : x.units = 0
    · -- a negative zero stays one
      simp [hx', hzero, roundUnits_zero]
    · rw [if_pos hx', if_pos hx', if_pos (by omega)]
  · rw [if_neg hx', if_neg hx', if_neg (by omega)]

/-- Beyond the significand there are no places behind the point. -/
theorem unitsPerOne_dvd_of_lt {units : Nat} (hgrid : OnGrid units)
    (hlarge : significandLimit * unitsPerOne ≤ units) : unitsPerOne ∣ units := by
  obtain ⟨k, -, hk⟩ := unitsPerOne_eq_pow
  rw [hk] at hlarge ⊢
  have hlog : 53 + k ≤ units.log2 := by
    have hpow : 2 ^ (53 + k) ≤ units := by
      rw [Nat.pow_add]
      exact hlarge
    exact (Nat.le_log2 (Nat.ne_of_gt (Nat.lt_of_lt_of_le (Nat.two_pow_pos _) hpow))).2 hpow
  have hdigits : 2 ^ k ∣ spacing units := by
    rw [spacing_eq]
    exact Nat.pow_dvd_pow 2 (by omega)
  exact hdigits.trans hgrid

theorem toWhole_eq (whole : Nat → Nat → Nat) (hx : x.isFinite) :
    x.toWhole whole = ofQuotient x.isNegative (whole x.units unitsPerOne * unitsPerOne) 1 := by
  obtain ⟨negative, m, _, _, rfl⟩ := exists_eq_finite hx
  rfl

/-- Taken to a neighbouring whole number, a double stays a double. -/
theorem toWhole_spec (whole : Nat → Nat → Nat) (hx : x.isFinite)
    (hlow : x.units / unitsPerOne ≤ whole x.units unitsPerOne)
    (hhigh : whole x.units unitsPerOne * unitsPerOne < x.units + unitsPerOne) :
    (x.toWhole whole).isFinite ∧ (x.toWhole whole).signedUnits =
      if x.isNegative then -((whole x.units unitsPerOne * unitsPerOne : Nat) : Int)
      else (whole x.units unitsPerOne * unitsPerOne : Nat) := by
  have hone := unitsPerOne_pos
  have hgrid := onGrid_signedUnits x
  have hlimit := natAbs_signedUnits_lt x
  rw [natAbs_signedUnits] at hgrid hlimit
  rw [toWhole_eq whole hx]
  generalize whole x.units unitsPerOne = w at *
  generalize x.units = m at *
  have hwhole : OnGrid (w * unitsPerOne) ∧ w * unitsPerOne < unitLimit := by
    rcases Nat.lt_or_ge m (significandLimit * unitsPerOne) with hsmall | hlarge
    · have hle : w ≤ significandLimit := by
        by_contra hgt
        have := Nat.mul_le_mul_right unitsPerOne (Nat.succ_le_of_lt (Nat.not_le.1 hgt))
        rw [Nat.succ_mul] at this
        omega
      exact ⟨onGrid_mul_unitsPerOne hle, mul_unitsPerOne_lt hle⟩
    · have hexact := Nat.div_mul_cancel (unitsPerOne_dvd_of_lt hgrid hlarge)
      have heq : w = m / unitsPerOne := by
        apply Nat.le_antisymm _ hlow
        by_contra hgt
        have := Nat.mul_le_mul_right unitsPerOne (Nat.succ_le_of_lt (Nat.not_le.1 hgt))
        rw [Nat.succ_mul] at this
        omega
      rw [heq, hexact]
      exact ⟨hgrid, hlimit⟩
  have hround := roundUnits_one hwhole.1
  obtain ⟨hfinite, hsign, hunits⟩ := ofQuotient_spec x.isNegative (hround.trans_lt hwhole.2)
  rw [hround] at hunits
  rw [signedUnits_eq, hsign, hunits]
  exact ⟨hfinite, rfl⟩

/-- A quotient taken up to a whole number. -/
theorem ceil_div_bounds {n d : Nat} (hd : 0 < d) :
    n / d ≤ (n + d - 1) / d ∧ n ≤ (n + d - 1) / d * d ∧ (n + d - 1) / d * d < n + d := by
  have hsplit := Nat.div_add_mod (n + d - 1) d
  have hmod := Nat.mod_lt (n + d - 1) hd
  rw [Nat.mul_comm] at hsplit
  exact ⟨Nat.div_le_div_right (by omega), by omega, by omega⟩

/-- The greatest whole number not above. -/
theorem floor_spec (hx : x.isFinite) :
    x.floor.isFinite ∧ ∃ q : Int, x.floor.signedUnits = q * unitsPerOne ∧
      q * unitsPerOne ≤ x.signedUnits ∧ x.signedUnits < q * unitsPerOne + unitsPerOne := by
  have hone := unitsPerOne_pos
  have hle := Nat.div_mul_le_self x.units unitsPerOne
  have hlt := Nat.lt_div_mul_add hone (a := x.units)
  obtain ⟨hlow, hge, hhigh⟩ := ceil_div_bounds (n := x.units) hone
  have hspec := toWhole_spec (fun n d => if x.isNegative then (n + d - 1) / d else n / d) hx
  rw [signedUnits_eq x]
  by_cases hsign : x.isNegative = true
  · rw [if_pos hsign, if_pos hsign] at hspec
    rw [if_pos hsign]
    obtain ⟨hfinite, hvalue⟩ := hspec hlow hhigh
    refine ⟨hfinite, -((x.units + unitsPerOne - 1) / unitsPerOne : Nat), ?_⟩
    rw [floor, hvalue, Int.neg_mul]
    omega
  · rw [if_neg hsign, if_neg hsign] at hspec
    rw [if_neg hsign]
    obtain ⟨hfinite, hvalue⟩ := hspec (Nat.le_refl _) (by omega)
    refine ⟨hfinite, (x.units / unitsPerOne : Nat), ?_⟩
    rw [floor, hvalue]
    omega

/-- The least whole number not below. -/
theorem ceil_spec (hx : x.isFinite) :
    x.ceil.isFinite ∧ ∃ q : Int, x.ceil.signedUnits = q * unitsPerOne ∧
      x.signedUnits ≤ q * unitsPerOne ∧ q * unitsPerOne < x.signedUnits + unitsPerOne := by
  have hone := unitsPerOne_pos
  have hle := Nat.div_mul_le_self x.units unitsPerOne
  have hlt := Nat.lt_div_mul_add hone (a := x.units)
  obtain ⟨hlow, hge, hhigh⟩ := ceil_div_bounds (n := x.units) hone
  have hspec := toWhole_spec (fun n d => if x.isNegative then n / d else (n + d - 1) / d) hx
  rw [signedUnits_eq x]
  by_cases hsign : x.isNegative = true
  · rw [if_pos hsign, if_pos hsign] at hspec
    rw [if_pos hsign]
    obtain ⟨hfinite, hvalue⟩ := hspec (Nat.le_refl _) (by omega)
    refine ⟨hfinite, -(x.units / unitsPerOne : Nat), ?_⟩
    rw [ceil, hvalue, Int.neg_mul]
    omega
  · rw [if_neg hsign, if_neg hsign] at hspec
    rw [if_neg hsign]
    obtain ⟨hfinite, hvalue⟩ := hspec hlow hhigh
    refine ⟨hfinite, ((x.units + unitsPerOne - 1) / unitsPerOne : Nat), ?_⟩
    rw [ceil, hvalue]
    omega

end CourseAdmission.Binary64
