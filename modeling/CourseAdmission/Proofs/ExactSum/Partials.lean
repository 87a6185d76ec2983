import CourseAdmission.Proofs.ExactSum.TwoSum
import Mathlib.Data.List.Induction

/-!
The partials of an exact sum, as whole numbers of units.

A value that is absorbed leaves the sum of the partials exact, and the partials stay apart: each
ends below the last binary digit of all later ones, with a digit to spare. So the sum of the
partials up to some place is smaller than the last digit of what follows, which is what the rounding
of the total relies on.
-/

namespace CourseAdmission.ExactSum

open Binary64

/-- The first number ends below the last binary digit of the second, with a digit to spare. -/
def Below (small large : Int) : Prop :=
  ∃ k : Nat, 2 * small.natAbs ≤ 2 ^ k ∧ (2 ^ k : Int) ∣ large

namespace Below

variable {a b c : Int}

theorem of_natAbs_le (hle : a.natAbs ≤ b.natAbs) (hbelow : Below b c) : Below a c := by
  obtain ⟨k, hk, hdvd⟩ := hbelow
  exact ⟨k, by omega, hdvd⟩

theorem add (hb : Below a b) (hc : Below a c) : Below a (b + c) := by
  obtain ⟨k, hk, hkb⟩ := hb
  obtain ⟨l, hl, hlc⟩ := hc
  rcases Nat.le_total k l with hle | hle
  · exact ⟨k, hk, Int.dvd_add hkb ((pow_dvd_pow 2 hle).trans hlc)⟩
  · exact ⟨l, hl, Int.dvd_add ((pow_dvd_pow 2 hle).trans hkb) hlc⟩

theorem neg (hb : Below a b) : Below a (-b) := by
  obtain ⟨k, hk, hdvd⟩ := hb
  exact ⟨k, hk, Int.dvd_neg.2 hdvd⟩

theorem sub (hb : Below a b) (hc : Below a c) : Below a (b - c) := by
  rw [Int.sub_eq_add_neg]
  exact hb.add hc.neg

theorem roundInt (hb : Below a b) : Below a (Binary64.roundInt b) := by
  obtain ⟨k, hk, hdvd⟩ := hb
  exact ⟨k, hk, two_pow_dvd_roundInt hdvd⟩

theorem two_mul_le (hb : Below a b) (hne : b ≠ 0) : 2 * a.natAbs ≤ b.natAbs := by
  obtain ⟨k, hk, hdvd⟩ := hb
  exact hk.trans (Nat.le_of_dvd (by omega) (two_pow_dvd_iff.1 hdvd))

end Below

/-- What rounding loses ends below the last digit of the rounded number. -/
theorem below_roundInt (z : Int) : Below (z - roundInt z) (roundInt z) := by
  refine ⟨z.natAbs.log2 - 52, ?_, ?_⟩
  · rw [← spacing_eq]
    exact two_mul_natAbs_sub_roundInt_le z
  · rw [two_pow_dvd_iff, natAbs_roundInt]
    simpa only [Nat.div_one, spacing_eq] using spacing_dvd_roundUnits z.natAbs 1

/-- The sum of the distances from zero. -/
def magnitude (values : List Int) : Nat := (values.map Int.natAbs).sum

@[simp]
theorem magnitude_nil : magnitude [] = 0 := rfl

@[simp]
theorem magnitude_cons (value : Int) (values : List Int) :
    magnitude (value :: values) = value.natAbs + magnitude values := by
  simp [magnitude]

@[simp]
theorem magnitude_append (front back : List Int) :
    magnitude (front ++ back) = magnitude front + magnitude back := by
  simp [magnitude]

theorem natAbs_sum_le_magnitude (values : List Int) : values.sum.natAbs ≤ magnitude values := by
  induction values with
  | nil => simp
  | cons value values ih =>
    rw [List.sum_cons, magnitude_cons]
    omega

/-- Partials: on the grid, the smallest first, each below all later ones. Only the last one may be
    zero. -/
structure Spread (partials : List Int) : Prop where
  onGrid : ∀ p ∈ partials, OnGrid p.natAbs
  below : partials.Pairwise Below
  ne_zero : ∀ p ∈ partials.dropLast, p ≠ 0

/-- Nonzero numbers that are spread out sum up to less than a power of two that divides what
    follows. -/
theorem magnitude_lt_pow {front : List Int} {large : Int}
    (hbelow : (front ++ [large]).Pairwise Below) (hne : ∀ p ∈ front, p ≠ 0) :
    ∃ k : Nat, magnitude front < 2 ^ k ∧ (2 ^ k : Int) ∣ large := by
  induction front using List.reverseRecOn generalizing large with
  | nil => exact ⟨0, by simp, by simp⟩
  | append_singleton front last ih =>
    obtain ⟨hfront, -, hlast⟩ := List.pairwise_append.1 hbelow
    obtain ⟨l, hl, hdvdl⟩ := ih hfront fun p hp => hne p (by simp [hp])
    obtain ⟨k, hk, hdvdk⟩ := hlast last (by simp) large (by simp)
    refine ⟨k, ?_, hdvdk⟩
    have hle : 2 ^ l ≤ last.natAbs := by
      apply Nat.le_of_dvd _ (two_pow_dvd_iff.1 hdvdl)
      have := hne last (by simp)
      omega
    simp only [magnitude_append, magnitude_cons, magnitude_nil]
    omega

theorem magnitude_lt_natAbs {front : List Int} {large : Int}
    (hbelow : (front ++ [large]).Pairwise Below) (hne : ∀ p ∈ front, p ≠ 0) (hlarge : large ≠ 0) :
    magnitude front < large.natAbs := by
  obtain ⟨k, hk, hdvd⟩ := magnitude_lt_pow hbelow hne
  exact hk.trans_le (Nat.le_of_dvd (by omega) (two_pow_dvd_iff.1 hdvd))

/-! Absorbing a value -/

/-- The partials after a value is absorbed, if no sum is too great for a double. -/
def absorbUnits (value : Int) : List Int → List Int
  | [] => [value]
  | p :: greater =>
    let high := roundInt (value + p)
    if value + p - high = 0 then absorbUnits high greater
    else (value + p - high) :: absorbUnits high greater

theorem absorbUnits_ne_nil (value : Int) (partials : List Int) :
    absorbUnits value partials ≠ [] := by
  induction partials generalizing value with
  | nil => simp [absorbUnits]
  | cons p greater ih =>
    unfold absorbUnits
    dsimp only
    split
    · exact ih _
    · simp

theorem sum_absorbUnits (value : Int) (partials : List Int) :
    (absorbUnits value partials).sum = value + partials.sum := by
  induction partials generalizing value with
  | nil => simp [absorbUnits]
  | cons p greater ih =>
    unfold absorbUnits
    dsimp only
    split
    · rw [ih, List.sum_cons]
      omega
    · rw [List.sum_cons, ih, List.sum_cons]
      omega

/-- What holds of the value and the partials, and of a rounded sum and its loss if it holds of the
    summands, holds of the partials afterwards. -/
theorem forall_mem_absorbUnits {P : Int → Prop} {value : Int} {partials : List Int}
    (hround : ∀ x y, P x → P y → P (roundInt (x + y)))
    (hloss : ∀ x y, P x → P y → P (x + y - roundInt (x + y)))
    (hvalue : P value) (hpartials : ∀ p ∈ partials, P p) :
    ∀ p ∈ absorbUnits value partials, P p := by
  induction partials generalizing value with
  | nil => simpa [absorbUnits] using hvalue
  | cons p greater ih =>
    have hp := hpartials p (by simp)
    have hrest := ih (hround value p hvalue hp) fun q hq => hpartials q (by simp [hq])
    unfold absorbUnits
    dsimp only
    split
    · exact hrest
    · intro q hq
      rcases List.mem_cons.1 hq with rfl | hq
      · exact hloss value p hvalue hp
      · exact hrest q hq

theorem onGrid_absorbUnits {value : Int} {partials : List Int} (hvalue : OnGrid value.natAbs)
    (hgrid : ∀ p ∈ partials, OnGrid p.natAbs) :
    ∀ p ∈ absorbUnits value partials, OnGrid p.natAbs := by
  apply forall_mem_absorbUnits (P := fun p => OnGrid p.natAbs) _ _ hvalue hgrid
  · exact fun x y _ _ => onGrid_roundInt (x + y)
  · intro x y hx hy
    rcases Nat.le_total y.natAbs x.natAbs with hle | hle
    · exact onGrid_sub_roundInt_add hx hy hle
    · rw [Int.add_comm x y]
      exact onGrid_sub_roundInt_add hy hx hle

theorem below_absorbUnits {small value : Int} {partials : List Int} (hvalue : Below small value)
    (hpartials : ∀ p ∈ partials, Below small p) :
    ∀ p ∈ absorbUnits value partials, Below small p :=
  forall_mem_absorbUnits (fun _ _ hx hy => (hx.add hy).roundInt)
    (fun _ _ hx hy => (hx.add hy).sub (hx.add hy).roundInt) hvalue hpartials

theorem pairwise_absorbUnits {value : Int} {partials : List Int} (hvalue : OnGrid value.natAbs)
    (hgrid : ∀ p ∈ partials, OnGrid p.natAbs) (hbelow : partials.Pairwise Below) :
    (absorbUnits value partials).Pairwise Below := by
  induction partials generalizing value with
  | nil => simp [absorbUnits]
  | cons p greater ih =>
    obtain ⟨hfirst, hgreater⟩ := List.pairwise_cons.1 hbelow
    have hrest := ih (onGrid_roundInt (value + p)) (fun q hq => hgrid q (by simp [hq])) hgreater
    unfold absorbUnits
    dsimp only
    split
    · exact hrest
    · refine List.pairwise_cons.2 ⟨?_, hrest⟩
      have hsmall := (natAbs_sub_roundInt_add_le hvalue (hgrid p (by simp))).2
      exact below_absorbUnits (below_roundInt _) fun q hq => (hfirst q hq).of_natAbs_le hsmall

theorem ne_zero_absorbUnits (value : Int) (partials : List Int) :
    ∀ p ∈ (absorbUnits value partials).dropLast, p ≠ 0 := by
  induction partials generalizing value with
  | nil => simp [absorbUnits]
  | cons p greater ih =>
    unfold absorbUnits
    dsimp only
    split
    · exact ih _
    · rw [List.dropLast_cons_of_ne_nil (absorbUnits_ne_nil _ _)]
      intro q hq
      rcases List.mem_cons.1 hq with rfl | hq
      · assumption
      · exact ih _ q hq

/-- Absorbing a value keeps the partials spread out. -/
theorem Spread.absorbUnits {value : Int} {partials : List Int} (hspread : Spread partials)
    (hvalue : OnGrid value.natAbs) : Spread (absorbUnits value partials) where
  onGrid := onGrid_absorbUnits hvalue hspread.onGrid
  below := pairwise_absorbUnits hvalue hspread.onGrid hspread.below
  ne_zero := ne_zero_absorbUnits value partials

end CourseAdmission.ExactSum
