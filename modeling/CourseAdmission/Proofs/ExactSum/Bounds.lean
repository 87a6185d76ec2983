import CourseAdmission.Proofs.ExactSum.Partials

/-!
No partial is greater than the values that were added allow, and no sum on the way to it leaves the
doubles.

The losses that stay behind are tiny beside the running sum. So the running sum is close to an exact
sum of the value and some leading partials, and those are smaller than the first partial left out.
-/

namespace CourseAdmission.ExactSum

open Binary64

/-- What stays behind of each rounding while a value is absorbed. -/
def losses (value : Int) : List Int → List Int
  | [] => []
  | p :: greater =>
    let high := roundInt (value + p)
    if value + p - high = 0 then losses high greater else (value + p - high) :: losses high greater

/-- The running sum after some partials. -/
def runningSum (value : Int) (partials : List Int) : Int :=
  partials.foldl (fun high p => roundInt (high + p)) value

theorem absorbUnits_eq_append (value : Int) (partials : List Int) :
    absorbUnits value partials = losses value partials ++ [runningSum value partials] := by
  induction partials generalizing value with
  | nil => rfl
  | cons p greater ih =>
    unfold absorbUnits losses
    dsimp only
    split
    · exact ih _
    · rw [ih]
      rfl

variable {value : Int} {partials : List Int}

theorem runningSum_add_sum_losses (value : Int) (partials : List Int) :
    runningSum value partials + (losses value partials).sum = value + partials.sum := by
  have hsum := sum_absorbUnits value partials
  rw [absorbUnits_eq_append, List.sum_append, List.sum_singleton] at hsum
  omega

/-- A loss has at most as many digits fewer than the sum as a significand holds. -/
theorem pow_mul_loss_le (z : Int) : 2 ^ 53 * (z - roundInt z).natAbs ≤ z.natAbs := by
  have hloss := two_mul_natAbs_sub_roundInt_le z
  rcases Nat.lt_or_ge 1 (spacing z.natAbs) with hwide | hnarrow
  · have := mul_spacing_le hwide
    omega
  · omega

theorem losses_le {bound : Nat} (hvalue : OnGrid value.natAbs)
    (hgrid : ∀ p ∈ partials, OnGrid p.natAbs)
    (hbound : value.natAbs + 2 * magnitude partials ≤ bound) :
    ∀ loss ∈ losses value partials, 2 ^ 53 * loss.natAbs ≤ bound := by
  induction partials generalizing value with
  | nil => simp [losses]
  | cons p greater ih =>
    have hsmall := (natAbs_sub_roundInt_add_le hvalue (hgrid p (by simp))).2
    have htiny := pow_mul_loss_le (value + p)
    rw [magnitude_cons] at hbound
    have hrest := ih (onGrid_roundInt (value + p)) (fun q hq => hgrid q (by simp [hq]))
      (by omega)
    unfold losses
    dsimp only
    split
    · exact hrest
    · intro loss hloss
      rcases List.mem_cons.1 hloss with rfl | hloss
      · omega
      · exact hrest loss hloss

theorem spread_out_losses (hvalue : OnGrid value.natAbs)
    (hgrid : ∀ p ∈ partials, OnGrid p.natAbs) (hbelow : partials.Pairwise Below) :
    (losses value partials ++ [runningSum value partials]).Pairwise Below ∧
      ∀ loss ∈ losses value partials, loss ≠ 0 := by
  have hpairwise := pairwise_absorbUnits hvalue hgrid hbelow
  have hne := ne_zero_absorbUnits value partials
  rw [absorbUnits_eq_append] at hpairwise hne
  rw [List.dropLast_concat] at hne
  exact ⟨hpairwise, hne⟩

/-- Numbers that are spread out and bounded sum up to at most twice the bound. -/
theorem magnitude_le_two_mul {values : List Int} {bound : Nat} (hbelow : values.Pairwise Below)
    (hne : ∀ p ∈ values, p ≠ 0) (hbound : ∀ p ∈ values, p.natAbs ≤ bound) :
    magnitude values ≤ 2 * bound := by
  rcases List.eq_nil_or_concat values with rfl | ⟨front, last, rfl⟩
  · simp
  · rw [List.concat_eq_append] at hbelow hne hbound ⊢
    have hfront := magnitude_lt_natAbs hbelow (fun p hp => hne p (by simp [hp]))
      (hne last (by simp))
    have hlast := hbound last (by simp)
    simp only [magnitude_append, magnitude_cons, magnitude_nil]
    omega

theorem magnitude_losses_le (hvalue : OnGrid value.natAbs)
    (hgrid : ∀ p ∈ partials, OnGrid p.natAbs) (hbelow : partials.Pairwise Below) :
    2 ^ 52 * magnitude (losses value partials) ≤ value.natAbs + 2 * magnitude partials := by
  obtain ⟨hpairwise, hne⟩ := spread_out_losses hvalue hgrid hbelow
  have htiny := losses_le hvalue hgrid (Nat.le_refl _)
  have hsum : magnitude (losses value partials) ≤
      2 * ((value.natAbs + 2 * magnitude partials) / 2 ^ 53) :=
    magnitude_le_two_mul (List.pairwise_append.1 hpairwise).1 hne fun loss hloss =>
      (Nat.le_div_iff_mul_le (by positivity)).2 (by rw [Nat.mul_comm]; exact htiny loss hloss)
  omega

/-- The running sum is close to the exact one. -/
theorem runningSum_near (hvalue : OnGrid value.natAbs) (hgrid : ∀ p ∈ partials, OnGrid p.natAbs)
    (hbelow : partials.Pairwise Below) :
    2 ^ 52 * (runningSum value partials - (value + partials.sum)).natAbs ≤
      value.natAbs + 2 * magnitude partials := by
  have hexact := runningSum_add_sum_losses value partials
  have hsum := natAbs_sum_le_magnitude (losses value partials)
  have hlosses := magnitude_losses_le hvalue hgrid hbelow
  omega

/-- The partials of values that are at most `total` in magnitude together. -/
structure Bounded (partials : List Int) (total : Nat) : Prop where
  sum_le : partials.sum.natAbs ≤ total
  le_pow : ∀ k, total ≤ 2 ^ k → ∀ p ∈ partials, p.natAbs ≤ 2 ^ k

theorem magnitude_le_three_mul {bound : Nat} (hspread : Spread partials)
    (hbound : ∀ p ∈ partials, p.natAbs ≤ bound) : magnitude partials ≤ 3 * bound := by
  obtain ⟨-, hbelow, hne⟩ := hspread
  rcases List.eq_nil_or_concat partials with rfl | ⟨front, last, rfl⟩
  · simp
  · rw [List.concat_eq_append] at hbelow hne hbound ⊢
    rw [List.dropLast_concat] at hne
    have hfront := magnitude_le_two_mul (List.pairwise_append.1 hbelow).1 hne
      fun p hp => hbound p (by simp [hp])
    have hlast := hbound last (by simp)
    simp only [magnitude_append, magnitude_cons, magnitude_nil]
    omega

theorem runningSum_le_pow {total k : Nat} (hspread : Spread partials)
    (hbounded : Bounded partials total) (hvalue : OnGrid value.natAbs)
    (hle : total + value.natAbs ≤ 2 ^ k) : (runningSum value partials).natAbs ≤ 2 ^ k := by
  have hpartials := magnitude_le_three_mul hspread (hbounded.le_pow k (by omega))
  have hlosses := magnitude_losses_le hvalue hspread.onGrid hspread.below
  have hexact := runningSum_add_sum_losses value partials
  have hsum := natAbs_sum_le_magnitude (losses value partials)
  have htotal := hbounded.sum_le
  obtain ⟨hpairwise, hne⟩ := spread_out_losses hvalue hspread.onGrid hspread.below
  obtain ⟨l, hl, hdvd⟩ := magnitude_lt_pow hpairwise hne
  by_contra hgt
  rw [Nat.not_le] at hgt
  rw [two_pow_dvd_iff] at hdvd
  rcases Nat.le_total l k with hlk | hkl
  · -- the losses are smaller than the last digit of the running sum
    have := add_le_of_dvd_of_lt (Nat.pow_dvd_pow 2 hlk) hdvd hgt
    omega
  · rcases Nat.lt_or_eq_of_le hkl with hlt | rfl
    · -- the losses are tiny beside a running sum that is twice the bound
      have hdouble : 2 ^ (k + 1) ≤ (runningSum value partials).natAbs :=
        Nat.le_of_dvd (by omega) ((Nat.pow_dvd_pow 2 hlt).trans hdvd)
      rw [Nat.pow_succ] at hdouble
      omega
    · have := add_le_of_dvd_of_lt dvd_rfl hdvd hgt
      omega

/-- Absorbing a value adds its magnitude to the bound. -/
theorem Bounded.absorbUnits {total : Nat} (hspread : Spread partials)
    (hbounded : Bounded partials total) (hvalue : OnGrid value.natAbs) :
    Bounded (absorbUnits value partials) (total + value.natAbs) where
  sum_le := by
    rw [sum_absorbUnits]
    have := hbounded.sum_le
    omega
  le_pow k hle p hp := by
    rw [absorbUnits_eq_append] at hp
    have hpartials := magnitude_le_three_mul hspread (hbounded.le_pow k (by omega))
    have hlosses := losses_le hvalue hspread.onGrid (Nat.le_refl _)
    rcases List.mem_append.1 hp with hloss | hlast
    · have := hlosses p hloss
      omega
    · rw [List.mem_singleton.1 hlast]
      exact runningSum_le_pow hspread hbounded hvalue hle

/-- The exact sum of leading partials is that of all of them, or smaller than the next one. -/
theorem sum_front_le {front rest : List Int} {bound : Nat} (hspread : Spread (front ++ rest))
    (hbound : ∀ p ∈ front ++ rest, p.natAbs ≤ bound) :
    front.sum = (front ++ rest).sum ∨ front.sum.natAbs ≤ bound := by
  rcases rest with _ | ⟨next, rest⟩
  · simp
  by_cases hnext : next = 0
  · -- only the last partial can be zero
    rcases rest with _ | ⟨after, rest⟩
    · simp [hnext]
    · exact absurd hnext (hspread.ne_zero next (by simp))
  · right
    have hsub : (front ++ [next]).Sublist (front ++ next :: rest) := by simp
    have hlt := magnitude_lt_natAbs (hspread.below.sublist hsub)
      (fun p hp => hspread.ne_zero p (by simp [hp])) hnext
    have := natAbs_sum_le_magnitude front
    have := hbound next (by simp)
    omega

theorem unitLimit_eq_four_mul : ∃ k, unitLimit = 4 * 2 ^ k := by
  obtain ⟨k, hk⟩ : ∃ k, k + 2 = 2098 := ⟨2096, rfl⟩
  refine ⟨k, ?_⟩
  unfold unitLimit
  rw [← hk, Nat.pow_eq, Nat.pow_add]
  omega

/-- While a value is absorbed no running sum leaves the doubles. -/
theorem runningSum_lt_unitLimit {total : Nat} {front rest : List Int}
    (hspread : Spread (front ++ rest)) (hbounded : Bounded (front ++ rest) total)
    (hvalue : OnGrid value.natAbs) (htotal : 2 * (total + value.natAbs) < unitLimit) :
    (runningSum value front).natAbs < unitLimit := by
  have hgrid : ∀ p ∈ front, OnGrid p.natAbs := fun p hp => hspread.onGrid p (by simp [hp])
  have hnear := runningSum_near hvalue hgrid (List.pairwise_append.1 hspread.below).1
  have hsum := hbounded.sum_le
  obtain ⟨k, hlimit⟩ := unitLimit_eq_four_mul
  have hbound : ∃ bound, (∀ p ∈ front ++ rest, p.natAbs ≤ bound) ∧
      value.natAbs + bound ≤ 3 * 2 ^ k ∧ bound ≤ 2 * 2 ^ k := by
    rcases Nat.le_total total (2 ^ k) with hle | hge
    · exact ⟨2 ^ k, hbounded.le_pow k hle, by omega, by omega⟩
    · refine ⟨2 ^ (k + 1), hbounded.le_pow (k + 1) ?_, ?_, ?_⟩ <;> rw [Nat.pow_succ] <;> omega
  obtain ⟨bound, hbound, hroom, hsmall⟩ := hbound
  have hmagnitude : magnitude front ≤ 3 * bound := by
    have := magnitude_le_three_mul hspread hbound
    rw [magnitude_append] at this
    omega
  rcases sum_front_le hspread hbound with hall | hfront
  · omega
  · omega

end CourseAdmission.ExactSum
