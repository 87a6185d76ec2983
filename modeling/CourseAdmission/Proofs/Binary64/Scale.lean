import CourseAdmission.Proofs.Binary64.KeepsSign

/-!
Scaling by powers of ten: which of them are doubles, and which products with them stay finite.
-/

namespace CourseAdmission.Binary64

variable {x y x' y' : Binary64}

theorem isFinite_ofQuotient_iff {negative : Bool} {n d : Nat} :
    (ofQuotient negative n d).isFinite = true ↔ roundUnits n d < unitLimit := by
  unfold ofQuotient
  split
  case isTrue hlt => exact iff_of_true rfl hlt
  case isFalse hge => exact iff_of_false Bool.false_ne_true hge

/-- A product stays finite when its factors get smaller. -/
theorem isFinite_mul_of_le (hx : x.isFinite) (hy : y.isFinite) (hx' : x'.isFinite)
    (hy' : y'.isFinite) (hxx' : x.units ≤ x'.units) (hyy' : y.units ≤ y'.units)
    (hproduct : (x' * y').isFinite) : (x * y).isFinite = true := by
  rw [mul_eq_ofQuotient hx' hy', isFinite_ofQuotient_iff] at hproduct
  rw [mul_eq_ofQuotient hx hy, isFinite_ofQuotient_iff]
  refine (roundUnits_le_roundUnits unitsPerOne_pos unitsPerOne_pos ?_).trans_lt hproduct
  exact Nat.mul_le_mul_right _ (Nat.mul_le_mul hxx' hyy')

/-- The double of a number below another one that has a finite double. -/
theorem ofNat_spec_of_le {m n : Nat} (hle : m ≤ n) (hn : (ofNat n).isFinite) :
    (ofNat m).isFinite ∧ (ofNat m).signedUnits = (ofNat m).units ∧
      (ofNat m).units ≤ (ofNat n).units := by
  have hround : roundUnits (m * unitsPerOne) 1 ≤ roundUnits (n * unitsPerOne) 1 :=
    roundUnits_le_roundUnits Nat.one_pos Nat.one_pos
      (Nat.mul_le_mul_right 1 (Nat.mul_le_mul_right unitsPerOne hle))
  have hlt := isFinite_ofQuotient_iff.1 hn
  obtain ⟨hfinite, hsign, hunits⟩ := ofQuotient_spec false (hround.trans_lt hlt)
  obtain ⟨-, -, hunits'⟩ := ofQuotient_spec false hlt
  refine ⟨hfinite, ?_, (hunits.trans_le hround).trans_eq hunits'.symm⟩
  rw [signedUnits_eq]
  exact if_neg (Bool.eq_false_iff.1 hsign)

/-- The greatest power of ten among the doubles. -/
theorem isFinite_powTen_greatest : (powTen 308).isFinite = true := by decide +kernel

theorem powTen_spec_of_le {k l : Nat} (hle : k ≤ l) (hl : l ≤ 308) :
    (powTen k).isFinite ∧ (powTen k).signedUnits = (powTen k).units ∧
      (powTen k).units ≤ (powTen l).units := by
  have hpow {a b : Nat} (hab : a ≤ b) : Nat.pow 10 a ≤ Nat.pow 10 b :=
    Nat.pow_le_pow_right (by decide) hab
  exact ofNat_spec_of_le (hpow hle) (ofNat_spec_of_le (hpow hl) isFinite_powTen_greatest).1

/-- The powers of ten are positive, and none of them is below one. -/
theorem powTen_spec {k : Nat} (hk : k ≤ 308) :
    (powTen k).isFinite ∧ (powTen k).signedUnits = (powTen k).units ∧
      unitsPerOne ≤ (powTen k).units := by
  obtain ⟨hfinite, hvalue, -⟩ := powTen_spec_of_le le_rfl hk
  obtain ⟨-, -, hone⟩ := powTen_spec_of_le (Nat.zero_le k) hk
  have hzero : (powTen 0).units = unitsPerOne := by
    rw [show powTen 0 = ofNat 1 from rfl, ofNat_eq (by decide)]
    change 1 * unitsPerOne = unitsPerOne
    exact Nat.one_mul unitsPerOne
  exact ⟨hfinite, hvalue, hzero.symm.trans_le hone⟩

/-- The powers of ten that a significand holds. -/
theorem powTen_exact {places : Nat} (hplaces : places ≤ 22) :
    (powTen places).isFinite = true ∧ (powTen places).isNegative = false ∧
      (powTen places).units = 10 ^ places * unitsPerOne := by
  have hall : ∀ places < 23, (powTen places).isFinite = true ∧
      (powTen places).isNegative = false ∧
        (powTen places).units = 10 ^ places * unitsPerOne := by decide +kernel
  exact hall places (by omega)

/-- A number up to a power of ten stays below a greater one when it is scaled. -/
theorem mul_powTen_spec {a b : Nat} (hx : x.isFinite) (hab : a + b ≤ 22)
    (hle : x.units ≤ 10 ^ a * unitsPerOne) :
    (x * powTen b).isFinite = true ∧ (x * powTen b).units ≤ 10 ^ (a + b) * unitsPerOne := by
  obtain ⟨hscale, -, hscaleUnits⟩ := powTen_exact (show b ≤ 22 by omega)
  obtain ⟨-, -, hboundUnits⟩ := powTen_exact hab
  have hgrid := onGrid_signedUnits (powTen (a + b))
  have hlt := natAbs_signedUnits_lt (powTen (a + b))
  rw [natAbs_signedUnits, hboundUnits] at hgrid hlt
  have hround : roundUnits (x.units * (powTen b).units) unitsPerOne ≤
      10 ^ (a + b) * unitsPerOne := by
    apply roundUnits_le_of_le hgrid unitsPerOne_pos
    calc x.units * (powTen b).units ≤ 10 ^ a * unitsPerOne * (powTen b).units :=
          Nat.mul_le_mul_right _ hle
      _ = 10 ^ (a + b) * unitsPerOne * unitsPerOne := by
        rw [hscaleUnits, Nat.pow_add]
        ring
  obtain ⟨hfinite, -, hunits⟩ :=
    ofQuotient_spec (x.isNegative != (powTen b).isNegative) (hround.trans_lt hlt)
  rw [mul_eq_ofQuotient hx hscale]
  exact ⟨hfinite, hunits.trans_le hround⟩

theorem one_le_powTen {k : Nat} (hk : k ≤ 308) : (unitsPerOne : Int) ≤ (powTen k).signedUnits := by
  obtain ⟨-, hvalue, hunits⟩ := powTen_spec hk
  rw [hvalue]
  exact_mod_cast hunits

theorem powTen_pos {k : Nat} (hk : k ≤ 308) : 0 < (powTen k).signedUnits := by
  have hone := unitsPerOne_pos
  have hle := one_le_powTen hk
  omega

theorem keepsSign_mul_powTen {k : Nat} (hk : k ≤ 308) :
    KeepsSign (· * powTen k) (fun _ m => m * (powTen k).units) unitsPerOne :=
  keepsSign_mul (powTen_spec hk).1 (powTen_pos hk)

theorem keepsSign_div_powTen {k : Nat} (hk : k ≤ 308) :
    KeepsSign (· / powTen k) (fun _ m => m * unitsPerOne) (powTen k).units :=
  keepsSign_div (powTen_spec hk).1 (powTen_pos hk)

theorem isFinite_div_powTen (hx : x.isFinite) {k : Nat} (hk : k ≤ 308) :
    (x / powTen k).isFinite = true :=
  isFinite_div hx (powTen_spec hk).1 (one_le_powTen hk)

end CourseAdmission.Binary64
