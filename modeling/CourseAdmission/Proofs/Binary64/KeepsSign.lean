import CourseAdmission.Proofs.Binary64.Order
import Mathlib.Order.Monotone.Basic

/-!
Operations that respect the order of doubles.

Multiplying or dividing by a positive number, and taking to a whole number, keep the sign and round
a quotient that grows with the distance from zero. So a greater number is not taken to a smaller
one, also where the results leave the finite numbers, and equal numbers are taken to equal ones.
-/

namespace CourseAdmission.Binary64

variable {x y c : Binary64}

/-- Greater numbers are not taken to smaller ones. -/
def Increasing (f : Binary64 → Binary64) : Prop := ∀ ⦃x y⦄, x ≤ y → f x ≤ f y

theorem Increasing.comp {f g : Binary64 → Binary64} (hf : Increasing f) (hg : Increasing g) :
    Increasing (f ∘ g) := fun _ _ hle => hf (hg hle)

/-- An operation that keeps the sign, and takes the distance from zero to a rounded quotient that
    grows with it. -/
structure KeepsSign (f : Binary64 → Binary64) (numerator : Bool → Nat → Nat) (denominator : Nat) :
    Prop where
  nan : f .nan = .nan
  infinite : ∀ negative, f (.infinite negative) = .infinite negative
  finite : ∀ x : Binary64, x.isFinite →
    f x = ofQuotient x.isNegative (numerator x.isNegative x.units) denominator
  zero : ∀ negative, numerator negative 0 = 0
  mono : ∀ negative, Monotone (numerator negative)
  pos : 0 < denominator

namespace KeepsSign

variable {f : Binary64 → Binary64} {numerator : Bool → Nat → Nat} {denominator : Nat}

theorem ne_nan (h : KeepsSign f numerator denominator) (hx : x ≠ .nan) : f x ≠ .nan := by
  cases x with
  | nan => exact absurd rfl hx
  | infinite negative =>
    rw [h.infinite]
    nofun
  | finite negative units onGrid bounded =>
    rw [h.finite _ rfl]
    exact (place_ofQuotient _ _ _).1

/-- The positive zero stays where it is. -/
theorem map_zero (h : KeepsSign f numerator denominator) : f 0 = 0 := by
  have hround : roundUnits 0 denominator = roundUnits 0 1 := by
    rw [roundUnits_zero, roundUnits_zero]
  rw [h.finite 0 isFinite_zero, zero_eq]
  change ofQuotient false (numerator false 0) denominator = _
  rw [h.zero, ofQuotient_congr false hround, ← zero_eq, show (0 : Binary64) = ofNat 0 from rfl,
    ofNat, Nat.zero_mul]

/-- What is not finite stays as it is. -/
theorem eq_self (h : KeepsSign f numerator denominator) (hx : ¬x.isFinite = true) : f x = x := by
  cases x with
  | nan => exact h.nan
  | infinite negative => exact h.infinite negative
  | finite => exact absurd rfl hx

/-- What is not finite is not made so. -/
theorem isFinite_of_isFinite (h : KeepsSign f numerator denominator) (hx : (f x).isFinite) :
    x.isFinite = true := by
  by_contra hx'
  rw [h.eq_self hx'] at hx
  exact hx' hx

theorem place_le_place (h : KeepsSign f numerator denominator) (hx : x.isFinite) (hy : y.isFinite)
    (hle : x.place ≤ y.place) : (f x).place ≤ (f y).place := by
  have hmono (negative : Bool) {k l : Nat} (hkl : k ≤ l) :=
    roundUnits_le_roundUnits h.pos h.pos (Nat.mul_le_mul_right denominator (h.mono negative hkl))
  rw [place_of_isFinite hx, place_of_isFinite hy, signedUnits_eq, signedUnits_eq] at hle
  rw [h.finite x hx, h.finite y hy, (place_ofQuotient _ _ _).2, (place_ofQuotient _ _ _).2]
  generalize x.isNegative = a, y.isNegative = b at *
  generalize x.units = m, y.units = n at *
  cases a with
  | true =>
    cases b with
    | true =>
      simp only [if_true] at hle ⊢
      have := hmono true (show n ≤ m by omega)
      omega
    | false =>
      simp only [if_true, Bool.false_eq_true, if_false]
      omega
  | false =>
    cases b with
    | true =>
      -- only the two zeros have different signs
      simp only [if_true, Bool.false_eq_true, if_false] at hle
      obtain ⟨rfl, rfl⟩ : m = 0 ∧ n = 0 := by omega
      rw [h.zero, h.zero, roundUnits_zero, Nat.zero_min]
      simp
    | false =>
      simp only [Bool.false_eq_true, if_false] at hle ⊢
      have := hmono false (show m ≤ n by omega)
      omega

theorem increasing (h : KeepsSign f numerator denominator) : Increasing f := by
  intro x y hle
  obtain ⟨hx, hy, hplace⟩ := le_iff_place.1 hle
  refine le_iff_place.2 ⟨h.ne_nan hx, h.ne_nan hy, ?_⟩
  have hfx := natAbs_place_le (f x)
  have hfy := natAbs_place_le (f y)
  rcases eq_infinite_or_isFinite hx with ⟨a, rfl⟩ | hxf
  · cases a with
    | true =>
      rw [h.infinite, place_infinite_true]
      omega
    | false => rw [eq_infinite_of_le hle]
  · rcases eq_infinite_or_isFinite hy with ⟨b, rfl⟩ | hyf
    · cases b with
      | true =>
        rw [isFinite_iff_place hx] at hxf
        rw [place_infinite_true] at hplace
        omega
      | false =>
        rw [h.infinite, place_infinite_false]
        omega
    · exact h.place_le_place hxf hyf hplace

theorem alike (h : KeepsSign f numerator denominator) (hxy : Alike x y) : Alike (f x) (f y) := by
  rcases hxy with ⟨rfl, rfl⟩ | hsame
  · exact .inl ⟨h.nan, h.nan⟩
  · obtain ⟨hle, hge⟩ := beq_iff_le_le.1 hsame
    exact .inr (beq_iff_le_le.2 ⟨h.increasing hle, h.increasing hge⟩)

/-- What is not below zero is not taken below it. -/
theorem nonneg (h : KeepsSign f numerator denominator) (hx : 0 ≤ x) : 0 ≤ f x := by
  have hle := h.increasing hx
  rwa [h.map_zero] at hle

end KeepsSign

/-- A positive number has no sign and is some units away from zero. -/
theorem units_pos_of_pos (hpos : 0 < c.signedUnits) : c.isNegative = false ∧ 0 < c.units := by
  rw [signedUnits_eq] at hpos
  split at hpos
  · omega
  · next hsign => exact ⟨by simpa using hsign, by omega⟩

theorem mul_eq_ofQuotient (hx : x.isFinite) (hy : y.isFinite) :
    x * y = ofQuotient (x.isNegative != y.isNegative) (x.units * y.units) unitsPerOne := by
  obtain ⟨a, m, _, _, rfl⟩ := exists_eq_finite hx
  obtain ⟨b, n, _, _, rfl⟩ := exists_eq_finite hy
  change mul _ _ = _
  simp only [mul]
  rfl

theorem keepsSign_mul (hc : c.isFinite) (hpos : 0 < c.signedUnits) :
    KeepsSign (· * c) (fun _ m => m * c.units) unitsPerOne := by
  obtain ⟨hsign, hunits⟩ := units_pos_of_pos hpos
  refine ⟨rfl, fun negative => ?_, fun x hx => ?_, fun _ => Nat.zero_mul _,
    fun _ _ _ hle => Nat.mul_le_mul_right _ hle, unitsPerOne_pos⟩
  · obtain ⟨a, n, _, _, rfl⟩ := exists_eq_finite hc
    change mul _ _ = _
    simp only [mul]
    rw [show a = false from hsign, Bool.bne_false]
    exact if_neg hunits.ne'
  · rw [mul_eq_ofQuotient hx hc, hsign, Bool.bne_false]

theorem keepsSign_div (hc : c.isFinite) (hpos : 0 < c.signedUnits) :
    KeepsSign (· / c) (fun _ m => m * unitsPerOne) c.units := by
  obtain ⟨hsign, hunits⟩ := units_pos_of_pos hpos
  refine ⟨rfl, fun negative => ?_, fun x hx => ?_, fun _ => Nat.zero_mul _,
    fun _ _ _ hle => Nat.mul_le_mul_right _ hle, hunits⟩
  · obtain ⟨a, n, _, _, rfl⟩ := exists_eq_finite hc
    change div _ _ = _
    simp only [div]
    rw [show a = false from hsign, Bool.bne_false]
  · rw [div_eq_ofQuotient hx hc hunits.ne', hsign, Bool.bne_false]

/-- Taking to a whole number, by a rule that may differ on the two sides of zero. -/
theorem keepsSign_toWhole {f : Binary64 → Binary64} {whole : Bool → Nat → Nat → Nat}
    (hf : ∀ x, f x = x.toWhole (whole x.isNegative))
    (hzero : ∀ negative, whole negative 0 unitsPerOne = 0)
    (hmono : ∀ negative, Monotone (whole negative · unitsPerOne)) :
    KeepsSign f (fun negative m => whole negative m unitsPerOne * unitsPerOne) 1 := by
  refine ⟨hf _, fun negative => hf _, fun x hx => ?_, fun negative => ?_,
    fun negative _ _ hle => Nat.mul_le_mul_right _ (hmono negative hle), Nat.one_pos⟩
  · rw [hf, toWhole_eq _ hx]
  · rw [hzero, Nat.zero_mul]

/-- A quotient taken to a whole number, upwards or downwards. -/
def wholeTo (up : Bool) (n d : Nat) : Nat := if up then (n + d - 1) / d else n / d

theorem wholeTo_mul (up : Bool) (n : Nat) {d : Nat} (hd : 0 < d) : wholeTo up (n * d) d = n := by
  unfold wholeTo
  split
  · rw [Nat.add_sub_assoc hd, Nat.add_comm, Nat.add_mul_div_right _ _ hd,
      Nat.div_eq_of_lt (Nat.sub_lt hd Nat.one_pos), Nat.zero_add]
  · exact Nat.mul_div_cancel n hd

theorem wholeTo_zero (up : Bool) {d : Nat} (hd : 0 < d) : wholeTo up 0 d = 0 := by
  simpa only [Nat.zero_mul] using wholeTo_mul up 0 hd

theorem monotone_wholeTo (up : Bool) (d : Nat) : Monotone (wholeTo up · d) := by
  intro m n hle
  dsimp only
  unfold wholeTo
  split
  · exact Nat.div_le_div_right (by omega)
  · exact Nat.div_le_div_right hle

theorem floor_eq (x : Binary64) : x.floor = x.toWhole (wholeTo x.isNegative) := rfl

theorem ceil_eq (x : Binary64) : x.ceil = x.toWhole (wholeTo !x.isNegative) := by
  cases x with
  | nan => rfl
  | infinite => rfl
  | finite negative => cases negative <;> rfl

theorem keepsSign_floor : KeepsSign floor (wholeTo · · unitsPerOne * unitsPerOne) 1 :=
  keepsSign_toWhole floor_eq (fun negative => wholeTo_zero negative unitsPerOne_pos)
    fun negative => monotone_wholeTo negative unitsPerOne

theorem keepsSign_ceil : KeepsSign ceil (fun negative m =>
    wholeTo (!negative) m unitsPerOne * unitsPerOne) 1 :=
  keepsSign_toWhole ceil_eq (fun negative => wholeTo_zero (!negative) unitsPerOne_pos)
    fun negative => monotone_wholeTo (!negative) unitsPerOne

/-- A quotient taken to the nearest whole number, a half upwards. -/
def nearestTo (n d : Nat) : Nat := (2 * n + d) / (2 * d)

theorem keepsSign_nearest :
    KeepsSign nearest (fun _ m => nearestTo m unitsPerOne * unitsPerOne) 1 := by
  have hone := unitsPerOne_pos
  have hnearest (x : Binary64) : x.nearest = x.toWhole ((fun _ => nearestTo) x.isNegative) := rfl
  refine keepsSign_toWhole hnearest (fun _ => ?_) fun _ m n hle => ?_
  · unfold nearestTo
    exact Nat.div_eq_of_lt (by omega)
  · dsimp only [nearestTo]
    exact Nat.div_le_div_right (by omega)

theorem nearestTo_bounds (n : Nat) {d : Nat} (hd : 0 < d) :
    n / d ≤ nearestTo n d ∧ nearestTo n d * d < n + d := by
  have hfloor := Nat.div_mul_le_self n d
  have hnearest := Nat.div_mul_le_self (2 * n + d) (2 * d)
  rw [← Nat.mul_assoc, Nat.mul_comm _ 2, Nat.mul_assoc] at hnearest
  refine ⟨(Nat.le_div_iff_mul_le (by omega)).2 ?_, ?_⟩
  · rw [← Nat.mul_assoc, Nat.mul_comm _ 2, Nat.mul_assoc]
    omega
  · unfold nearestTo
    omega

theorem isFinite_nearest (hx : x.isFinite) : x.nearest.isFinite = true := by
  obtain ⟨hlow, hhigh⟩ := nearestTo_bounds x.units unitsPerOne_pos
  exact (toWhole_spec nearestTo hx hlow hhigh).1

/-- A finite number stays one when it is divided by a number that is not below one. -/
theorem isFinite_div (hx : x.isFinite) (hc : c.isFinite)
    (hone : (unitsPerOne : Int) ≤ c.signedUnits) : (x / c).isFinite = true := by
  have hpos := unitsPerOne_pos
  have hunits := natAbs_signedUnits c
  have hlimit := natAbs_signedUnits_lt x
  have hgrid := onGrid_signedUnits x
  rw [natAbs_signedUnits] at hlimit hgrid
  refine (div_spec hx hc (by omega) ?_).1
  exact (roundUnits_le_of_le hgrid (by omega) (Nat.mul_le_mul_left _ (by omega))).trans_lt hlimit

theorem ofNat_le_ofNat {m n : Nat} (hle : m ≤ n) : ofNat m ≤ ofNat n := by
  obtain ⟨hm, hmPlace⟩ := place_ofQuotient false (m * unitsPerOne) 1
  obtain ⟨hn, hnPlace⟩ := place_ofQuotient false (n * unitsPerOne) 1
  have hround := roundUnits_le_roundUnits Nat.one_pos Nat.one_pos
    (Nat.mul_le_mul_right 1 (Nat.mul_le_mul_right unitsPerOne hle))
  refine le_iff_place.2 ⟨hm, hn, ?_⟩
  unfold ofNat
  rw [hmPlace, hnPlace, if_neg Bool.false_ne_true, if_neg Bool.false_ne_true]
  omega

end CourseAdmission.Binary64
