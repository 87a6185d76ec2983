import CourseAdmission.Proofs.Binary64.KeepsSign
import CourseAdmission.Proofs.Binary64.Nearest
import CourseAdmission.Proofs.ExactSum.Permuted

/-!
The total of finite values is the double nearest to their exact sum.

That leaves the sign of a zero open. A rounded sum is a negative zero only of two negative zeros, so
the partials hold one only as long as nothing else was added, and the total too is determined by the
values alone, whatever their order.
-/

namespace CourseAdmission

namespace Binary64

theorem neg_zero_eq : (-0 : Binary64) =
    .finite true 0 (onGrid_of_le (Nat.zero_le _)) unitLimit_pos := by
  rw [zero_eq]
  rfl

/-- Only two negative zeros sum up to a negative zero. -/
theorem eq_neg_zero_of_add_eq {x y : Binary64} (hsum : x + y = -0) : x = -0 ∧ y = -0 := by
  rw [neg_zero_eq] at hsum ⊢
  cases x with
  | nan => cases hsum
  | infinite a =>
    cases y with
    | nan => cases hsum
    | infinite b =>
      change Binary64.add _ _ = _ at hsum
      rw [Binary64.add] at hsum
      split at hsum <;> cases hsum
    | finite => cases hsum
  | finite a m hm hm' =>
    cases y with
    | nan => cases hsum
    | infinite => cases hsum
    | finite b n hn hn' =>
      rw [finite_add_finite, ofQuotient] at hsum
      split at hsum
      case isFalse => cases hsum
      case isTrue =>
        obtain ⟨hsign, hround⟩ := Binary64.finite.inj hsum
        have hzero : (finite a m hm hm').signedUnits + (finite b n hn hn').signedUnits = 0 := by
          by_contra hne
          have := roundUnits_pos (Int.natAbs_pos.2 hne)
          omega
        rw [if_pos hzero, Bool.and_eq_true] at hsign
        obtain ⟨rfl, rfl⟩ := hsign
        rw [signedUnits_finite_true, signedUnits_finite_true] at hzero
        obtain ⟨rfl, rfl⟩ : m = 0 ∧ n = 0 := by omega
        exact ⟨rfl, rfl⟩

theorem eq_neg_zero_iff {x : Binary64} (hx : x.isFinite) (hzero : x.signedUnits = 0) :
    x = -0 ↔ x.isNegative = true := by
  rw [neg_zero_eq]
  obtain ⟨negative, units, onGrid, bounded, rfl⟩ := exists_eq_finite hx
  have hunits := natAbs_signedUnits (finite negative units onGrid bounded)
  rw [hzero] at hunits
  obtain rfl : 0 = units := hunits
  cases negative with
  | true => exact iff_of_true rfl rfl
  | false => exact iff_of_false nofun nofun

/-- A finite number is given by its value and its sign. -/
theorem eq_of_signedUnits_eq {x y : Binary64} (hx : x.isFinite) (hy : y.isFinite)
    (hvalue : x.signedUnits = y.signedUnits) (hsign : x.isNegative = y.isNegative) : x = y := by
  have hx' := natAbs_signedUnits x
  have hy' := natAbs_signedUnits y
  obtain ⟨a, m, _, _, rfl⟩ := exists_eq_finite hx
  obtain ⟨b, n, _, _, rfl⟩ := exists_eq_finite hy
  obtain rfl : a = b := hsign
  obtain rfl : m = n := by
    change _ = m at hx'
    change _ = n at hy'
    rw [← hx', ← hy', hvalue]
  rfl

theorem isNegative_of_neg {x : Binary64} (hneg : x.signedUnits < 0) : x.isNegative = true := by
  rw [signedUnits_eq] at hneg
  split at hneg
  · assumption
  · omega

end Binary64

namespace ExactSum

open Binary64

theorem eq_neg_zero_of_twoSum {x y : Binary64} (hsum : (twoSum x y).1 = -0) :
    x = -0 ∧ y = -0 := by
  by_cases hlt : x.abs < y.abs
  · simp only [twoSum, if_pos hlt] at hsum
    exact (eq_neg_zero_of_add_eq hsum).symm
  · simp only [twoSum, if_neg hlt] at hsum
    exact eq_neg_zero_of_add_eq hsum

theorem absorb_ne_nil (value : Binary64) (partials : List Binary64) :
    absorb value partials ≠ [] := by
  induction partials generalizing value with
  | nil => exact List.cons_ne_nil _ _
  | cons p greater ih =>
    unfold absorb
    dsimp only
    split
    · exact ih _
    · exact List.cons_ne_nil _ _

/-- A value that is no negative zero leaves none behind, and neither does one that meets a partial
    that is none. -/
theorem neg_zero_not_mem_absorb {value : Binary64} {partials : List Binary64}
    (h : value ≠ -0 ∨ partials ≠ [] ∧ -0 ∉ partials) : -0 ∉ absorb value partials := by
  induction partials generalizing value with
  | nil =>
    have hvalue : value ≠ -0 := h.resolve_right fun h => h.1 rfl
    simpa [absorb] using hvalue.symm
  | cons p greater ih =>
    have hhigh : (twoSum value p).1 ≠ -0 := by
      intro heq
      obtain ⟨hvalue, hp⟩ := eq_neg_zero_of_twoSum heq
      rcases h with hne | ⟨-, hmem⟩
      · exact hne hvalue
      · exact hmem (by simp [hp])
    have hrest := ih (.inl hhigh)
    unfold absorb
    dsimp only
    split
    case isTrue => exact hrest
    case isFalse hlow =>
      rw [List.mem_cons, not_or]
      refine ⟨fun heq => hlow ?_, hrest⟩
      rw [← heq]
      decide +kernel

theorem absorb_neg_zero : absorb (-0) [-0] = [-0] := by decide +kernel

/-- Nothing but negative zeros was added, and something was. -/
def OnlyNegativeZeros (values : List Binary64) : Prop := values ≠ [] ∧ ∀ v ∈ values, v = -0

/-- The partials hold a negative zero exactly as long as nothing else was added. -/
structure KeepsZeroSign (values partials : List Binary64) : Prop where
  only : OnlyNegativeZeros values → partials = [-0]
  other : ¬OnlyNegativeZeros values → -0 ∉ partials
  nonempty : values ≠ [] → partials ≠ []

theorem partials_add {value : Binary64} (sum : ExactSum) (hvalue : value.isFinite) :
    (sum.add value).partials = absorb value sum.partials := by
  rw [add_eq, if_pos hvalue]

theorem KeepsZeroSign.absorb {values partials : List Binary64} (h : KeepsZeroSign values partials)
    (hnil : values = [] → partials = []) (value : Binary64) :
    KeepsZeroSign (values ++ [value]) (absorb value partials) where
  only := by
    rintro ⟨-, hall⟩
    have hvalue : value = -0 := hall value (by simp)
    rcases eq_or_ne values [] with hempty | hne
    · rw [hnil hempty, hvalue]
      rfl
    · rw [h.only ⟨hne, fun v hv => hall v (by simp [hv])⟩, hvalue]
      exact absorb_neg_zero
  other := by
    intro hother
    apply neg_zero_not_mem_absorb
    by_cases hvalue : value = -0
    · have hne : values ≠ [] := by
        rintro rfl
        exact hother ⟨by simp, by simpa using hvalue⟩
      refine .inr ⟨h.nonempty hne, h.other fun honly => hother ⟨by simp, fun v hv => ?_⟩⟩
      rcases List.mem_append.1 hv with hv | hv
      · exact honly.2 v hv
      · rw [List.mem_singleton.1 hv, hvalue]
    · exact .inl hvalue
  nonempty := fun _ => absorb_ne_nil _ _

theorem keepsZeroSign_ofList {values : List Binary64} (hfinite : ∀ v ∈ values, v.isFinite) :
    KeepsZeroSign values (ofList values).partials := by
  induction values using List.reverseRecOn with
  | nil => exact ⟨fun h => absurd rfl h.1, fun _ => List.not_mem_nil, fun h => absurd rfl h⟩
  | append_singleton values value ih =>
    rw [ofList_append_singleton, partials_add _ (hfinite value (by simp))]
    refine (ih fun v hv => hfinite v (by simp [hv])).absorb ?_ value
    rintro rfl
    rfl

/-! The total -/

theorem collapse_ne_neg_zero {high : Binary64} {values : List Binary64} (hhigh : high ≠ -0) :
    (collapse high values).1 ≠ -0 := by
  induction values generalizing high with
  | nil => exact hhigh
  | cons next smaller ih =>
    have hsum : high + next ≠ -0 := fun heq => hhigh (eq_neg_zero_of_add_eq heq).1
    unfold collapse
    dsimp only
    split
    · exact ih hsum
    · exact hsum

theorem settle_ne_neg_zero {sums : Binary64 × Binary64 × List Binary64} (hhigh : sums.1 ≠ -0) :
    settle sums ≠ -0 := by
  obtain ⟨high, low, left⟩ := sums
  cases left with
  | nil => exact hhigh
  | cons next smaller =>
    have hmoved : high + low * 2 ≠ -0 := fun heq => hhigh (eq_neg_zero_of_add_eq heq).1
    unfold settle
    dsimp only
    split
    · split
      · exact hmoved
      · exact hhigh
    · exact hhigh

theorem total_ne_neg_zero {sum : ExactSum} (hnonFinite : (sum.nonFinite == 0) = true)
    (hpartials : -0 ∉ sum.partials) : sum.total ≠ -0 := by
  rcases hreverse : sum.partials.reverse with _ | ⟨greatest, smaller⟩
  · rw [ExactSum.total, if_pos hnonFinite, hreverse]
    decide +kernel
  · rw [total_eq_settle hnonFinite hreverse]
    apply settle_ne_neg_zero
    apply collapse_ne_neg_zero
    intro heq
    rw [heq] at hreverse
    apply hpartials
    rw [← List.mem_reverse, hreverse]
    exact List.mem_cons_self

theorem total_eq_neg_zero {sum : ExactSum} (hnonFinite : (sum.nonFinite == 0) = true)
    (hpartials : sum.partials = [-0]) : sum.total = -0 := by
  have hreverse : sum.partials.reverse = [-0] := by
    rw [hpartials, List.reverse_singleton]
  rw [total_eq_settle hnonFinite hreverse, collapse, settle]

variable {values : List Binary64}

theorem total_ofList_eq_neg_zero_iff (hfinite : ∀ v ∈ values, v.isFinite)
    (hroom : 2 * magnitude (values.map signedUnits) < unitLimit) :
    (ofList values).total = -0 ↔ OnlyNegativeZeros values := by
  have hnonFinite := (holds_ofList hfinite hroom).nonFinite
  have hkeeps := keepsZeroSign_ofList hfinite
  constructor
  · intro htotal
    by_contra hother
    exact total_ne_neg_zero hnonFinite (hkeeps.other hother) htotal
  · exact fun honly => total_eq_neg_zero hnonFinite (hkeeps.only honly)

theorem OnlyNegativeZeros.sum_eq (h : OnlyNegativeZeros values) :
    (values.map signedUnits).sum = 0 := by
  apply List.sum_eq_zero
  intro units hunits
  obtain ⟨v, hv, rfl⟩ := List.mem_map.1 hunits
  rw [h.2 v hv, signedUnits_neg, signedUnits_zero]
  rfl

/-- The total is negative if the exact sum is, or if only negative zeros were added. -/
theorem isNegative_total_iff (hfinite : ∀ v ∈ values, v.isFinite)
    (hroom : 2 * magnitude (values.map signedUnits) < unitLimit) :
    (ofList values).total.isNegative = true ↔
      (values.map signedUnits).sum < 0 ∨ OnlyNegativeZeros values := by
  obtain ⟨htotal, hvalue⟩ := (holds_ofList hfinite hroom).total hroom
  rcases Int.lt_trichotomy (values.map signedUnits).sum 0 with hsum | hsum | hsum
  · have hneg := roundInt_neg_iff.2 hsum
    rw [← hvalue] at hneg
    exact iff_of_true (isNegative_of_neg hneg) (.inl hsum)
  · rw [hsum, roundInt_zero] at hvalue
    rw [← eq_neg_zero_iff htotal hvalue, total_ofList_eq_neg_zero_iff hfinite hroom, hsum]
    simp
  · have hpos : 0 < (ofList values).total.signedUnits := by
      have hneg := roundInt_neg_iff (z := (values.map signedUnits).sum)
      have hzero := roundInt_eq_zero_iff (z := (values.map signedUnits).sum)
      omega
    rw [(units_pos_of_pos hpos).1]
    refine iff_of_false Bool.false_ne_true ?_
    rintro (hneg | honly)
    · omega
    · have := honly.sum_eq
      omega

theorem onlyNegativeZeros_iff_of_perm {values' : List Binary64} (h : values.Perm values') :
    OnlyNegativeZeros values ↔ OnlyNegativeZeros values' := by
  unfold OnlyNegativeZeros
  rw [ne_eq, ne_eq, ← List.length_eq_zero_iff, ← List.length_eq_zero_iff, h.length_eq]
  simp only [h.mem_iff]

/-- Let the absolute values of finite values sum up to less than `2 ^ 1023`. In whatever order they
    are added, the total is the double nearest to their exact sum, a tie going to the even
    significand, and a zero is negative only if nothing but negative zeros was added. So the total
    is the same double in every order. -/
theorem isNearest_total_ofList (hfinite : ∀ v ∈ values, v.isFinite)
    (hroom : 2 * magnitude (values.map signedUnits) < unitLimit) :
    (ofList values).total.IsNearest (values.map signedUnits).sum ∧
      ((ofList values).total.isNegative = true ↔
        (values.map signedUnits).sum < 0 ∨ OnlyNegativeZeros values) ∧
      ∀ values', values.Perm values' → (ofList values').total = (ofList values).total := by
  obtain ⟨htotal, hvalue⟩ := (holds_ofList hfinite hroom).total hroom
  have hsign := isNegative_total_iff hfinite hroom
  refine ⟨isNearest_of_eq_roundInt htotal hvalue, hsign, fun values' hperm => ?_⟩
  have hunits := hperm.map signedUnits
  have hmagnitude := (hunits.map Int.natAbs).sum_eq
  rw [← magnitude, ← magnitude] at hmagnitude
  have hfinite' : ∀ v ∈ values', v.isFinite := fun v hv => hfinite v (hperm.mem_iff.2 hv)
  obtain ⟨htotal', hvalue'⟩ := (holds_ofList hfinite' (by omega)).total (by omega)
  have hsign' := isNegative_total_iff hfinite' (by omega)
  rw [← hunits.sum_eq] at hvalue' hsign'
  apply eq_of_signedUnits_eq htotal' htotal (hvalue'.trans hvalue.symm)
  rw [Bool.eq_iff_iff, hsign, hsign', onlyNegativeZeros_iff_of_perm hperm]

/-- Two values whose sum lies half way between two doubles, and a third that decides. -/
def halfWay : List Binary64 := [.ofNat 10000000000000000, 1, .ofDecimal false 1 (-16)]

theorem isNearest_total_halfWay :
    (ofList halfWay).total.IsNearest (halfWay.map signedUnits).sum ∧
      (ofList halfWay.reverse).total = (ofList halfWay).total := by
  obtain ⟨hnearest, -, hperm⟩ :=
    @isNearest_total_ofList halfWay (by decide +kernel) (by decide +kernel)
  exact ⟨hnearest, hperm _ halfWay.reverse_perm.symm⟩

-- Without the third value the sum goes to the even neighbour below.
example : (ofList halfWay).total = .ofNat 10000000000000002 ∧
    (ofList (halfWay.take 2)).total = .ofNat 10000000000000000 := by
  decide +kernel

end ExactSum

end CourseAdmission
