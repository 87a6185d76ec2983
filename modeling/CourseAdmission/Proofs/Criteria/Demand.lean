import CourseAdmission.Criteria.Rule
import CourseAdmission.Proofs.Binary64.Quotient

/-!
What demands with whole thresholds ask of a percentage.

Rounding down does not matter to a whole threshold, and rounding up lowers it by less than one.
-/

namespace CourseAdmission

namespace Binary64

theorem isFinite_of_beq {x y : Binary64} (hy : y.isFinite) (hsame : (x == y) = true) :
    x.isFinite := by
  cases x with
  | finite => rfl
  | nan => cases hsame
  | infinite =>
    cases y with
    | finite => cases hsame
    | nan => cases hy
    | infinite => cases hy

theorem IsPercent.isFinite {x : Binary64} (h : x.IsPercent) : x.isFinite := by
  obtain ⟨hlow, hhigh⟩ := h
  rw [zero_eq] at hlow
  rw [show (100 : Binary64) = .ofNat 100 from rfl, ofNat_eq (by decide)] at hhigh
  cases x with
  | finite => rfl
  | nan => cases hlow
  | infinite negative =>
    cases negative with
    | true => cases hlow
    | false => cases hhigh

/-- A percentage is finite and from zero to a hundred, in units. -/
theorem isPercent_iff {x : Binary64} : x.IsPercent ↔
    x.isFinite ∧ 0 ≤ x.signedUnits ∧ x.signedUnits ≤ 100 * unitsPerOne := by
  obtain ⟨hhundred, hvalue⟩ := ofNat_spec (n := 100) (by decide)
  have hlow (hx : x.isFinite) : 0 ≤ x ↔ 0 ≤ x.signedUnits := by
    rw [le_iff isFinite_zero hx, signedUnits_zero]
  have hhigh (hx : x.isFinite) : x ≤ .ofNat 100 ↔ x.signedUnits ≤ 100 * unitsPerOne := by
    rw [le_iff hx hhundred, hvalue]
    push_cast
    rfl
  constructor
  · intro hx
    have hfinite := hx.isFinite
    exact ⟨hfinite, (hlow hfinite).1 hx.1, (hhigh hfinite).1 hx.2⟩
  · rintro ⟨hfinite, hle, hge⟩
    exact ⟨(hlow hfinite).2 hle, (hhigh hfinite).2 hge⟩

/-- The whole numbers up to a hundred are percentages. -/
theorem isPercent_ofNat {n : Nat} (hn : n ≤ 100) : (ofNat n).IsPercent := by
  obtain ⟨hfinite, hvalue⟩ := ofNat_spec (hn.trans (by decide))
  rw [isPercent_iff, hvalue]
  exact ⟨hfinite, Int.natCast_nonneg _, by exact_mod_cast Nat.mul_le_mul_right unitsPerOne hn⟩

theorem isPercent_zero : (0 : Binary64).IsPercent := isPercent_ofNat (Nat.zero_le 100)

theorem isPercent_fifty : (50 : Binary64).IsPercent := isPercent_ofNat (n := 50) (by decide)

end Binary64

namespace Demand

open Binary64

variable {demand : Demand} {percent : Binary64} {m : Nat}

/-- A whole number below the one after another is not above the other. -/
theorem le_of_mul_unitsPerOne_lt {p q : Int}
    (hlt : p * unitsPerOne < q * unitsPerOne + unitsPerOne) :
    p * unitsPerOne ≤ q * unitsPerOne := by
  have hone : (0 : Int) < unitsPerOne := Int.natCast_pos.2 unitsPerOne_pos
  have hstep : p * unitsPerOne < (q + 1) * unitsPerOne := by
    rw [Int.add_mul]
    omega
  exact Int.mul_le_mul_of_nonneg_right
    (Int.lt_add_one_iff.1 (Int.lt_of_mul_lt_mul_right hstep hone.le)) hone.le

theorem holds_iff_of_whole (hm : m ≤ significandLimit)
    (hrequired : (demand.required == .ofNat m) = true)
    (hrounded : (demand.rounded percent).isFinite) :
    demand.holds percent = true ↔
      (m * unitsPerOne : Int) ≤ (demand.rounded percent).signedUnits := by
  obtain ⟨hwhole, hvalue⟩ := ofNat_spec hm
  have hfinite := isFinite_of_beq hwhole hrequired
  rw [beq_iff hfinite hwhole] at hrequired
  rw [holds, decide_eq_true_iff, le_iff hfinite hrounded, hrequired, hvalue]
  push_cast
  rfl

theorem holds_iff_of_none_or_down (hrounding : demand.rounding = .none ∨ demand.rounding = .down)
    (hm : m ≤ significandLimit) (hrequired : (demand.required == .ofNat m) = true)
    (hpercent : percent.isFinite) :
    demand.holds percent = true ↔ (m * unitsPerOne : Int) ≤ percent.signedUnits := by
  rcases hrounding with hnone | hdown
  · have hrounded : demand.rounded percent = percent := by rw [rounded, hnone]; rfl
    rw [holds_iff_of_whole hm hrequired (by rwa [hrounded]), hrounded]
  · have hrounded : demand.rounded percent = percent.floor := by rw [rounded, hdown]; rfl
    obtain ⟨hfloor, q, hq, hle, hlt⟩ := floor_spec hpercent
    rw [holds_iff_of_whole hm hrequired (by rwa [hrounded]), hrounded, hq]
    exact ⟨fun h => h.trans hle, fun h => le_of_mul_unitsPerOne_lt (h.trans_lt hlt)⟩

theorem holds_iff_of_up (hrounding : demand.rounding = .up) (hm : m ≤ significandLimit)
    (hrequired : (demand.required == .ofNat m) = true) (hpercent : percent.isFinite) :
    demand.holds percent = true ↔ (m * unitsPerOne : Int) < percent.signedUnits + unitsPerOne := by
  have hrounded : demand.rounded percent = percent.ceil := by rw [rounded, hrounding]; rfl
  obtain ⟨hceil, q, hq, hle, hlt⟩ := ceil_spec hpercent
  rw [holds_iff_of_whole hm hrequired (by rwa [hrounded]), hrounded, hq]
  exact ⟨fun h => h.trans_lt hlt, fun h => le_of_mul_unitsPerOne_lt (by omega)⟩

end Demand

/-- What a rule demands. -/
def Rule.demands : Rule → List Demand
  | .overall _ average => [average]
  | .passedShare _ average share => [average, share]

end CourseAdmission
