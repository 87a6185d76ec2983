import CourseAdmission.Proofs.Binary64.Perturb
import CourseAdmission.Proofs.Binary64.Whole
import CourseAdmission.Proofs.ExactSum.Run

/-!
The total of an exact sum is the exact sum, rounded once.

The greatest partials are added until a sum is inexact. The partials that are left are smaller than
the last binary digit of that sum, so they only matter if it lies half way between two doubles; then
the greatest of them tells on which side the exact sum is.
-/

namespace CourseAdmission.ExactSum

open Binary64

/-- Partials that were not looked at: the greatest first, each below all earlier ones and none of
    them zero. -/
structure Descending (values : List Int) : Prop where
  below : values.Pairwise (flip Below)
  ne_zero : ∀ v ∈ values, v ≠ 0

theorem Descending.tail {first : Int} {rest : List Int} (h : Descending (first :: rest)) :
    Descending rest :=
  ⟨(List.pairwise_cons.1 h.below).2, fun v hv => h.ne_zero v (by simp [hv])⟩

theorem Descending.magnitude_lt {first : Int} {rest : List Int} (h : Descending (first :: rest)) :
    magnitude rest < first.natAbs := by
  have hbelow : (rest.reverse ++ [first]).Pairwise Below := by
    rw [← List.reverse_cons, List.pairwise_reverse]
    exact h.below
  have hlt := magnitude_lt_natAbs hbelow (fun v hv => h.ne_zero v (by simp_all))
    (h.ne_zero first (by simp))
  simpa [magnitude, List.sum_reverse] using hlt

/-- The sum of what is left lies on the same side of zero as the greatest of it, and is less than
    twice as far away. -/
theorem Descending.sum_cons {first : Int} {rest : List Int} (h : Descending (first :: rest)) :
    (0 < (first :: rest).sum ↔ 0 < first) ∧ ((first :: rest).sum < 0 ↔ first < 0) ∧
      (first :: rest).sum.natAbs < 2 * first.natAbs := by
  have hrest := natAbs_sum_le_magnitude rest
  have hlt := h.magnitude_lt
  rw [List.sum_cons]
  omega

/-- How far a sum got: `high` is `z` rounded and `low` is what that lost, and together with the
    partials that are left `z` is the exact sum. -/
structure Collapsed (exact : Int) (high low : Binary64) (left : List Binary64) (z : Int) :
    Prop where
  high_finite : high.isFinite
  high_eq : high.signedUnits = roundInt z
  low_finite : low.isFinite
  low_eq : low.signedUnits = z - roundInt z
  left_finite : ∀ v ∈ left, v.isFinite
  descending : Descending (left.map signedUnits)
  below : ∀ v ∈ left.map signedUnits, Below v z
  sum_eq : z + (left.map signedUnits).sum = exact
  inexact : left ≠ [] → low.signedUnits ≠ 0
  room : 4 * z.natAbs < 3 * unitLimit

/-- The partials that are still to be added to a sum: each is below the sum, and none is so large
    that a sum on the way overflows. -/
structure Collapsible (exact : Int) (high : Binary64) (values : List Binary64) : Prop where
  high_finite : high.isFinite
  finite : ∀ v ∈ values, v.isFinite
  descending : Descending (values.map signedUnits)
  below : ∀ v ∈ values.map signedUnits, Below v high.signedUnits
  half : ∀ v ∈ values.map signedUnits, 2 * v.natAbs ≤ unitLimit
  quarter : high.signedUnits ≠ 0 → ∀ v ∈ values.map signedUnits, 4 * v.natAbs ≤ unitLimit
  sum_eq : high.signedUnits + (values.map signedUnits).sum = exact
  exact_room : 2 * exact.natAbs < unitLimit
  room : 4 * high.signedUnits.natAbs < 3 * unitLimit

namespace Collapsible

variable {exact : Int} {high next : Binary64} {values smaller : List Binary64}

theorem next_mem : next.signedUnits ∈ (next :: smaller).map signedUnits := by simp

theorem below_next (h : Collapsible exact high (next :: smaller)) :
    ∀ v ∈ smaller.map signedUnits, Below v next.signedUnits :=
  (List.pairwise_cons.1 h.descending.below).1

theorem below_sum (h : Collapsible exact high (next :: smaller)) :
    ∀ v ∈ smaller.map signedUnits, Below v (high.signedUnits + next.signedUnits) := fun v hv =>
  (h.below v (List.mem_cons_of_mem _ hv)).add (h.below_next v hv)

theorem room_sum (h : Collapsible exact high (next :: smaller)) :
    4 * (high.signedUnits + next.signedUnits).natAbs < 3 * unitLimit := by
  have hexact := h.sum_eq
  have hroom := h.exact_room
  have hrest := h.descending.magnitude_lt
  have htail := natAbs_sum_le_magnitude (smaller.map signedUnits)
  rw [List.map_cons, List.sum_cons] at hexact
  rcases eq_or_ne high.signedUnits 0 with hzero | hne
  · have hhalf := h.half next.signedUnits next_mem
    have := unitLimit_pos
    omega
  · -- what is left after the next partial is smaller than it, so the sum is near the exact one
    have hquarter := h.quarter hne next.signedUnits next_mem
    omega

/-- The next sum is the rounded one, and what it loses is exact. -/
theorem twoSum (h : Collapsible exact high (next :: smaller)) :
    (high + next).isFinite ∧
      (high + next).signedUnits = roundInt (high.signedUnits + next.signedUnits) ∧
      (next - (high + next - high)).isFinite ∧
      (next - (high + next - high)).signedUnits = high.signedUnits + next.signedUnits -
        roundInt (high.signedUnits + next.signedUnits) := by
  have hroom := h.room_sum
  have hloss := pow_mul_loss_le (high.signedUnits + next.signedUnits)
  have horder : high.signedUnits = 0 ∨ next.signedUnits.natAbs ≤ high.signedUnits.natAbs := by
    rcases eq_or_ne high.signedUnits 0 with hzero | hne
    · exact .inl hzero
    · have := (h.below next.signedUnits next_mem).two_mul_le hne
      omega
  exact ordered_twoSum_spec h.high_finite (h.finite next (by simp)) horder
    (h.half next.signedUnits next_mem) (by omega)

/-- After an exact sum the smaller partials are still to be added. -/
theorem step (h : Collapsible exact high (next :: smaller))
    (hsum : (high + next).signedUnits = high.signedUnits + next.signedUnits) :
    Collapsible exact (high + next) smaller where
  high_finite := h.twoSum.1
  finite v hv := h.finite v (List.mem_cons_of_mem _ hv)
  descending := h.descending.tail
  below := by
    rw [hsum]
    exact h.below_sum
  half v hv := h.half v (List.mem_cons_of_mem _ hv)
  quarter := by
    intro _ v hv
    have hnext := h.half next.signedUnits next_mem
    have := (h.below_next v hv).two_mul_le (h.descending.ne_zero next.signedUnits next_mem)
    omega
  sum_eq := by
    have hexact := h.sum_eq
    rw [List.map_cons, List.sum_cons] at hexact
    omega
  exact_room := h.exact_room
  room := by
    rw [hsum]
    exact h.room_sum

end Collapsible

/-- Adding partials from the greatest down stops at the first inexact sum. -/
theorem collapse_spec {high : Binary64} {values : List Binary64} {exact : Int}
    (h : Collapsible exact high values) :
    ∃ z, Collapsed exact (collapse high values).1 (collapse high values).2.1
      (collapse high values).2.2 z := by
  induction values generalizing high with
  | nil =>
    have hround := roundInt_of_onGrid (onGrid_signedUnits high)
    refine ⟨high.signedUnits, h.high_finite, hround.symm, isFinite_zero, ?_, by simp [collapse],
      ⟨by simp [collapse], by simp [collapse]⟩, by simp [collapse], ?_, by simp [collapse], h.room⟩
    · rw [hround, Int.sub_self]
      exact signedUnits_zero
    · simpa [collapse] using h.sum_eq
  | cons next smaller ih =>
    obtain ⟨hsum, hsumValue, hlow, hlowValue⟩ := h.twoSum
    have hzero := beq_zero_iff hlow
    have hexact := h.sum_eq
    rw [List.map_cons, List.sum_cons, ← Int.add_assoc] at hexact
    unfold collapse
    dsimp only
    by_cases hinexact : (next - (high + next - high)).signedUnits = 0
    · -- the sum is exact and goes on
      rw [if_pos (hzero.2 hinexact)]
      exact ih (h.step (by omega))
    · rw [if_neg (mt hzero.1 hinexact)]
      exact ⟨_, hsum, hsumValue, hlow, hlowValue, fun v hv => h.finite v (by simp [hv]),
        h.descending.tail, h.below_sum, hexact, fun _ => hinexact, h.room_sum⟩

theorem sameSide_iff {x y : Binary64} (hx : x.isFinite) (hy : y.isFinite) :
    sameSide x y = true ↔ x.signedUnits < 0 ∧ y.signedUnits < 0 ∨
      0 < x.signedUnits ∧ 0 < y.signedUnits := by
  simp only [sameSide, Bool.or_eq_true, Bool.and_eq_true, decide_eq_true_iff,
    lt_iff hx isFinite_zero, lt_iff hy isFinite_zero, lt_iff isFinite_zero hx,
    lt_iff isFinite_zero hy, signedUnits_zero]

/-- The result of `total` from where the sums stopped. -/
def settle : Binary64 × Binary64 × List Binary64 → Binary64
  | (high, low, next :: _) =>
    if sameSide low next then
      if low * 2 == high + low * 2 - high then high + low * 2 else high
    else high
  | (high, _, []) => high

section

variable {high low : Binary64} {z : Int}

/-- Twice the loss added to the rounded sum, when that gives a double. -/
theorem moved_eq (hhigh : high.isFinite) (hlow : low.isFinite)
    (hhighValue : high.signedUnits = roundInt z) (hlowValue : low.signedUnits = z - roundInt z)
    (hroom : 4 * z.natAbs < 3 * unitLimit)
    (hgrid : OnGrid (roundInt z + 2 * (z - roundInt z)).natAbs) :
    (high + low * 2).isFinite ∧
      (high + low * 2).signedUnits = roundInt z + 2 * (z - roundInt z) ∧
      (low * 2 == high + low * 2 - high) = true := by
  have hloss := pow_mul_loss_le z
  obtain ⟨htwice, htwiceValue⟩ := mul_two_spec hlow (by omega)
  have hround := roundInt_of_onGrid hgrid
  have hsum : high.signedUnits + (low * 2).signedUnits = roundInt z + 2 * (z - roundInt z) := by
    omega
  obtain ⟨hmoved, hmovedValue⟩ := add_spec hhigh htwice (by rw [hsum, hround]; omega)
  rw [hsum, hround] at hmovedValue
  have hback : (high + low * 2).signedUnits - high.signedUnits = (low * 2).signedUnits := by omega
  obtain ⟨hdiff, hdiffValue⟩ := sub_exact hmoved hhigh (by rw [hback]; exact onGrid_signedUnits _)
    (by rw [hback]; omega)
  exact ⟨hmoved, hmovedValue, (beq_iff htwice hdiff).2 (by omega)⟩

/-- Off the middle between two doubles, twice the loss is not what adding it changes. -/
theorem moved_ne (hhigh : high.isFinite) (hlow : low.isFinite)
    (hhighValue : high.signedUnits = roundInt z) (hlowValue : low.signedUnits = z - roundInt z)
    (hroom : 4 * z.natAbs < 3 * unitLimit) (hgrid : ¬OnGrid z.natAbs)
    (hoff : 2 * (z - roundInt z).natAbs < Binary64.spacing z.natAbs) :
    ¬(low * 2 == high + low * 2 - high) = true := by
  have hloss := pow_mul_loss_le z
  obtain ⟨htwice, htwiceValue⟩ := mul_two_spec hlow (by omega)
  have hmovedLoss := pow_mul_loss_le (high.signedUnits + (low * 2).signedUnits)
  obtain ⟨hmoved, hmovedValue⟩ := add_spec hhigh htwice (by omega)
  have hback := onGrid_roundInt_add_sub (onGrid_signedUnits high) (onGrid_signedUnits (low * 2))
    (by omega)
  rw [← hmovedValue] at hback
  obtain ⟨hdiff, hdiffValue⟩ := sub_exact hmoved hhigh hback (by omega)
  rw [beq_iff htwice hdiff]
  intro hequal
  apply not_onGrid_of_lt hgrid hoff
  have hexact : roundInt z + 2 * (z - roundInt z) = (high + low * 2).signedUnits := by omega
  rw [hexact]
  exact onGrid_signedUnits _

end

theorem settle_spec {exact : Int} {high low : Binary64} {left : List Binary64} {z : Int}
    (h : Collapsed exact high low left z) :
    (settle (high, low, left)).isFinite ∧
      (settle (high, low, left)).signedUnits = roundInt exact := by
  obtain ⟨hhigh, hhighValue, hlow, hlowValue, hleft, hdescending, hbelow, hexact, hinexact,
    hroom⟩ := h
  rcases left with _ | ⟨next, smaller⟩
  · rw [List.map_nil, List.sum_nil, Int.add_zero] at hexact
    exact ⟨hhigh, by rw [← hexact]; exact hhighValue⟩
  have hnext := hleft next (by simp)
  have hlossne := hinexact (by simp)
  obtain ⟨k, hk, hdvd⟩ := hbelow next.signedUnits (by simp)
  rw [List.map_cons] at hdescending hexact
  obtain ⟨hpos, hneg, hsmall⟩ := hdescending.sum_cons
  have hnextne := hdescending.ne_zero next.signedUnits (by simp)
  generalize (next.signedUnits :: smaller.map signedUnits).sum = δ at *
  have hgrid : ¬OnGrid z.natAbs := by
    intro hgrid
    rw [roundInt_of_onGrid hgrid] at hlowValue
    omega
  have hδ : δ.natAbs < 2 ^ k := by omega
  have hsame := sameSide_iff hlow hnext
  unfold settle
  dsimp only
  rw [← hexact]
  rcases Nat.lt_or_eq_of_le (two_mul_natAbs_sub_roundInt_le z) with hoff | htie
  · -- off the middle the rounded sum is the result, whatever is left
    rw [roundInt_add_of_lt hdvd hgrid hδ hoff, if_neg (moved_ne hhigh hlow hhighValue hlowValue
      hroom hgrid hoff), ite_self]
    exact ⟨hhigh, hhighValue⟩
  by_cases hside : sameSide low next = true
  · rw [if_pos hside]
    rw [hsame] at hside
    have hround := roundInt_add_of_sameSide hdvd hgrid hδ htie (by omega)
    obtain ⟨hmoved, hmovedValue, hequal⟩ := moved_eq hhigh hlow hhighValue hlowValue hroom
      (by rw [← hround]; exact onGrid_roundInt _)
    rw [if_pos hequal]
    exact ⟨hmoved, hmovedValue.trans hround.symm⟩
  · rw [if_neg hside]
    rw [hsame] at hside
    rw [roundInt_add_of_otherSide hdvd hgrid hδ htie (by omega)]
    exact ⟨hhigh, hhighValue⟩

theorem total_eq_settle {sum : ExactSum} {greatest : Binary64} {smaller : List Binary64}
    (hnonFinite : (sum.nonFinite == 0) = true)
    (hreverse : sum.partials.reverse = greatest :: smaller) :
    sum.total = settle (collapse greatest smaller) := by
  rw [total, if_pos hnonFinite, hreverse]
  dsimp only
  obtain ⟨high, low, left⟩ := collapse greatest smaller
  cases left <;> rfl

theorem Spread.descending {greatest : Int} {smaller : List Int}
    (hspread : Spread (greatest :: smaller).reverse) :
    Descending smaller ∧ ∀ v ∈ smaller, Below v greatest := by
  obtain ⟨-, hbelow, hne⟩ := hspread
  rw [List.pairwise_reverse, List.pairwise_cons] at hbelow
  rw [List.reverse_cons, List.dropLast_concat] at hne
  exact ⟨⟨hbelow.2, fun v hv => hne v (by simpa using hv)⟩, hbelow.1⟩

/-- The total is the exact sum rounded once. -/
theorem Holds.total {sum : ExactSum} {exact : Int} {reach : Nat} (hsum : Holds sum exact reach)
    (hreach : 2 * reach < unitLimit) :
    sum.total.isFinite ∧ sum.total.signedUnits = roundInt exact := by
  obtain ⟨hnonFinite, hfinite, hspread, hbounded, hexact⟩ := hsum
  have hreverse : (sum.partials.map signedUnits).reverse = sum.partials.reverse.map signedUnits :=
    List.map_reverse.symm
  rcases hpartials : sum.partials.reverse with _ | ⟨greatest, smaller⟩
  · have hnil : sum.partials = [] := by simpa using hpartials
    rw [ExactSum.total, if_pos hnonFinite, hpartials, ← hexact, hnil]
    simp
  have hhalf := hbounded.two_mul_le hreach
  have hmem : ∀ v, v ∈ sum.partials ↔ v ∈ greatest :: smaller := by simp [← hpartials]
  rw [hpartials, List.map_cons] at hreverse
  have hunits := List.reverse_eq_iff.1 hreverse
  rw [hunits] at hspread hhalf
  obtain ⟨hdescending, hbelow⟩ := hspread.descending
  have hgreatest := hhalf greatest.signedUnits (by simp)
  have hsumEq : greatest.signedUnits + (smaller.map signedUnits).sum = exact := by
    rw [← hexact, hunits, List.sum_reverse, List.sum_cons]
  have hquarter : greatest.signedUnits ≠ 0 →
      ∀ v ∈ smaller.map signedUnits, 4 * v.natAbs ≤ unitLimit := by
    intro hne v hv
    have := (hbelow v hv).two_mul_le hne
    omega
  have hle := hbounded.sum_le
  rw [hexact] at hle
  have hroom : 4 * greatest.signedUnits.natAbs < 3 * unitLimit := by
    have := unitLimit_pos
    omega
  obtain ⟨z, hz⟩ := collapse_spec ⟨hfinite greatest (by simp [hmem]),
    fun v hv => hfinite v ((hmem v).2 (by simp [hv])), hdescending, hbelow,
    fun v hv => hhalf v (by simp_all), hquarter, hsumEq, by omega, hroom⟩
  rw [total_eq_settle hnonFinite hpartials]
  exact settle_spec hz

end CourseAdmission.ExactSum
