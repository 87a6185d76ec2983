import CourseAdmission.Proofs.Results.Share
import CourseAdmission.Proofs.Verdict.ZeroThresholds

/-!
Whole thresholds on the share of passed results.

The rounded share lies on the same side of every whole number as the exact one. So a condition with
a whole threshold is decided as it is between whole numbers, whether the share is compared as it is
or first taken down or up to a whole number.
-/

namespace CourseAdmission

open Binary64

namespace Demand

variable {demand : Demand} {part whole m : Nat}

theorem holds_percentOf_of_none_or_down
    (hrounding : demand.rounding = .none ∨ demand.rounding = .down)
    (hrequired : (demand.required == .ofNat m) = true) (hm : m ≤ 100) (hpos : 0 < whole)
    (hwhole : whole < 2 ^ 40) (hpart : part ≤ whole) :
    demand.holds (percentOf part whole) = decide (m * whole ≤ 100 * part) := by
  obtain ⟨hfinite, hvalue⟩ := percentOf_spec hpos hwhole hpart
  have hside := roundUnits_lt_whole_iff (n := 100 * part) hpos hwhole.le (hm.trans (by decide))
  rw [Bool.eq_iff_iff, decide_eq_true_iff, ← Nat.not_lt, ← hside, Nat.not_lt,
    holds_iff_of_none_or_down hrounding (hm.trans (by decide)) hrequired hfinite, hvalue]
  exact_mod_cast Iff.rfl

theorem holds_percentOf_of_up (hrounding : demand.rounding = .up)
    (hrequired : (demand.required == .ofNat m) = true) (hm : m ≤ 100) (hpos : 0 < whole)
    (hwhole : whole < 2 ^ 40) (hpart : part ≤ whole) :
    demand.holds (percentOf part whole) = decide (((m : Int) - 1) * whole < 100 * part) := by
  have hone := unitsPerOne_pos
  obtain ⟨hfinite, hvalue⟩ := percentOf_spec hpos hwhole hpart
  rw [Bool.eq_iff_iff, decide_eq_true_iff,
    holds_iff_of_up hrounding (hm.trans (by decide)) hrequired hfinite, hvalue]
  cases m with
  | zero =>
    -- a share is above minus one, and so is what it is rounded to
    simp only [Nat.cast_zero, Int.zero_mul]
    omega
  | succ m =>
    have hside := whole_lt_roundUnits_iff (n := 100 * part) hpos hwhole.le
      (show m < 2 ^ 12 by omega)
    push_cast
    rw [Int.add_mul, Int.one_mul, Int.add_sub_cancel, Int.add_lt_add_iff_right]
    exact_mod_cast hside

end Demand

/-- Let a rule have the whole number `m` from 0 to 100 as its threshold on the share of passed
    results, and let a student have at least one result of the rule's type and less than `2 ^ 40` of
    them. The condition is met, unrounded or rounded down, exactly if the hundredfold number of
    passed results is at least `m` times the number of all, and rounded up exactly if it is more
    than `m - 1` times that number; no rounding of the share changes it. -/
theorem Criteria.shareMetAt_of_whole {criteria : Criteria} {place m : Nat} {type : AssignmentType}
    {average share : Demand} {results : List AssignmentResult}
    (hrule : criteria.rules[place]? = some (.passedShare type average share))
    (hrequired : (share.required == .ofNat m) = true) (hm : m ≤ 100)
    (hpos : 0 < (TypeAggregate.matching results type).length)
    (hcount : (TypeAggregate.matching results type).length < 2 ^ 40) :
    let count := (TypeAggregate.matching results type).length
    let passed := (TypeAggregate.matching results type).countP (·.passed)
    let met := (criteria.evaluate results).shareMetAt place
    (share.rounding = .none ∨ share.rounding = .down →
        met = some (decide (m * count ≤ 100 * passed))) ∧
      (share.rounding = .up → met = some (decide (((m : Int) - 1) * count < 100 * passed))) := by
  intro count passed met
  have hpassed : passed ≤ count := List.countP_le_length
  have hmet : met = some (share.holds (percentOf passed count)) :=
    shareMetAt_evaluate results hrule
  constructor
  · intro hrounding
    rw [hmet, Demand.holds_percentOf_of_none_or_down hrounding hrequired hm hpos hcount hpassed]
  · intro hrounding
    rw [hmet, Demand.holds_percentOf_of_up hrounding hrequired hm hpos hcount hpassed]

/-- A threshold of 67 percent, compared with what the policy makes of a percentage. -/
def twoThirds (rounding : RoundingPolicy) (hallowed : rounding.Allowed) : Demand where
  required := .ofNat 67
  rounding := rounding
  isPercent := isPercent_ofNat (by decide)
  allowed := hallowed

/-- Two passed results of three are not enough, unless their share is rounded up. -/
theorem shareMetAt_of_whole_twoThirds :
    let average : Demand := ⟨0, .none, isPercent_zero, trivial⟩
    let criteria (share : Demand) : Criteria := ⟨[.passedShare .homework average share]⟩
    let results : List AssignmentResult := [⟨"a", .homework, 0, true⟩, ⟨"b", .testat, 0, false⟩,
      ⟨"c", .homework, 0, false⟩, ⟨"d", .homework, 0, true⟩]
    ((criteria (twoThirds .none trivial)).evaluate results).shareMetAt 0 = some false ∧
      ((criteria (twoThirds .down trivial)).evaluate results).shareMetAt 0 = some false ∧
      ((criteria (twoThirds .up trivial)).evaluate results).shareMetAt 0 = some true := by
  intro average criteria results
  have hself : (Binary64.ofNat 67 == .ofNat 67) = true := by decide +kernel
  have hrequired (rounding : RoundingPolicy) (hallowed : rounding.Allowed) :
      ((twoThirds rounding hallowed).required == .ofNat 67) = true := by
    rw [twoThirds]
    dsimp only
    exact hself
  have hmet (rounding : RoundingPolicy) (hallowed : rounding.Allowed) :=
    @Criteria.shareMetAt_of_whole (criteria (twoThirds rounding hallowed)) 0 67 .homework average
      (twoThirds rounding hallowed) results rfl (hrequired rounding hallowed) (by decide)
      (by decide) (by decide)
  exact ⟨((hmet .none trivial).1 (.inl rfl)).trans (by decide),
    ((hmet .down trivial).1 (.inr rfl)).trans (by decide),
    ((hmet .up trivial).2 rfl).trans (by decide)⟩

end CourseAdmission
