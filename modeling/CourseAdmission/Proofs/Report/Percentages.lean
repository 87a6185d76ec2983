import CourseAdmission.Proofs.Json.ReadBack
import CourseAdmission.Proofs.Report.Survival
import CourseAdmission.Proofs.Results.Share
import CourseAdmission.Proofs.Verdict.AtThreshold
import CourseAdmission.Proofs.Verdict.ZeroThresholds

/-!
Percentages stay between zero and a hundred.

The sum of so many percentages is at most a hundred for each, which is a double, so it is not
rounded past it, and neither is the quotient. Every rounding leaves zero and a hundred alone and
respects the order in between.
-/

namespace CourseAdmission

open Binary64 ExactSum

variable {percents : List Binary64} {x y : Binary64}

/-- The sum of percentages, in units, is at most a hundred for each of them. -/
theorem sum_percents_bounds (hpercents : ∀ p ∈ percents, p.IsPercent) :
    0 ≤ (percents.map signedUnits).sum ∧
      (percents.map signedUnits).sum ≤ (percents.length * 100 * unitsPerOne : Nat) := by
  induction percents with
  | nil => exact ⟨le_rfl, Int.natCast_nonneg _⟩
  | cons p percents ih =>
    obtain ⟨hp, hrest⟩ := List.forall_mem_cons.1 hpercents
    obtain ⟨-, hlow, hhigh⟩ := isPercent_iff.1 hp
    obtain ⟨hsumLow, hsumHigh⟩ := ih hrest
    rw [List.map_cons, List.sum_cons, List.length_cons, Nat.add_mul, Nat.add_mul]
    omega

theorem TypeAggregate.isPercent_mean (hpercents : ∀ p ∈ percents, p.IsPercent)
    (hlength : percents.length < 2 ^ 40) : (mean percents).IsPercent := by
  rcases eq_or_ne percents [] with rfl | hne
  · exact isPercent_zero
  have hpos : 0 < percents.length := List.length_pos_iff.2 hne
  have hone := Nat.mul_pos hpos unitsPerOne_pos
  have hexact : 2 ^ 40 * 100 ≤ significandLimit := by decide
  have hroom := magnitude_percents_lt hpercents (hlength.trans (by decide))
  obtain ⟨htotal, hvalue⟩ :=
    (holds_ofList (fun p hp => (hpercents p hp).isFinite) hroom).total hroom
  obtain ⟨hcount, hcountValue⟩ := ofNat_spec (n := percents.length) (by omega)
  obtain ⟨hlow, hhigh⟩ := sum_percents_bounds hpercents
  -- both bounds of the exact sum are doubles, so they bound the rounded sum as well
  have hgrid : OnGrid ((percents.length * 100 * unitsPerOne : Nat) : Int).natAbs := by
    rw [Int.natAbs_natCast]
    exact onGrid_mul_unitsPerOne (by omega)
  have htotalLow := roundInt_le_roundInt hlow
  have htotalHigh := roundInt_le_roundInt hhigh
  rw [roundInt_zero] at htotalLow
  rw [roundInt_of_onGrid hgrid] at htotalHigh
  rw [mean, if_neg (by simpa using hne)]
  apply isPercent_div htotal hcount
  · rwa [hvalue]
  · rw [hcountValue]
    exact_mod_cast hone
  · rw [hvalue, hcountValue]
    refine htotalHigh.trans_eq ?_
    push_cast
    ring

theorem isPercent_percentOf {part whole : Nat} (hpart : part ≤ whole) (hwhole : whole < 2 ^ 40) :
    (percentOf part whole).IsPercent := by
  rcases Nat.eq_zero_or_pos whole with rfl | hpos
  · exact isPercent_zero
  have hexact : 100 * 2 ^ 40 ≤ significandLimit := by decide
  have hone := Nat.mul_pos hpos unitsPerOne_pos
  obtain ⟨hscaled, hscaledValue⟩ := ofNat_spec (n := 100 * part) (by omega)
  obtain ⟨hcount, hcountValue⟩ := ofNat_spec (n := whole) (by omega)
  have hle := Nat.mul_le_mul_right unitsPerOne (Nat.mul_le_mul_left 100 hpart)
  rw [Nat.mul_assoc 100 whole] at hle
  rw [percentOf_eq hpos hwhole hpart]
  apply isPercent_div hscaled hcount
  · rw [hscaledValue]
    exact Int.natCast_nonneg _
  · rw [hcountValue]
    exact_mod_cast hone
  · rw [hscaledValue, hcountValue]
    exact_mod_cast hle

namespace RoundingPolicy

variable {policy : RoundingPolicy}

theorem apply_hundred (hallowed : policy.Allowed) : policy.apply 100 = 100 :=
  (apply_ofNat hallowed (by decide)).1

/-- Percentages have room on the scale, so all of them are taken to whole numbers of the last
    place. -/
theorem roundPlaces_of_isPercent {places : Nat} (hx : x.IsPercent) :
    roundPlaces places x = (steadied places x).nearest / powTen (min places maxPlaces) := by
  obtain ⟨hzero, hhundred⟩ := isFinite_steadied_zero_hundred places
  rw [roundPlaces_eq, if_pos (isFinite_of_le_of_le hzero hhundred
    (increasing_steadied places hx.1) (increasing_steadied places hx.2))]

/-- Of two percentages the greater is not rounded to the smaller. -/
theorem apply_le_apply (hallowed : policy.Allowed) (hx : x.IsPercent) (hy : y.IsPercent)
    (hle : x ≤ y) : policy.apply x ≤ policy.apply y := by
  cases policy with
  | none => exact hle
  | up => exact keepsSign_ceil.increasing hle
  | down => exact keepsSign_floor.increasing hle
  | decimals places =>
    rw [apply, apply, roundPlaces_of_isPercent hx, roundPlaces_of_isPercent hy]
    have hnearest := keepsSign_nearest.increasing (increasing_steadied places hle)
    exact (keepsSign_div_powTen (min_places_le places)).increasing hnearest

theorem isPercent_apply (hallowed : policy.Allowed) (hx : x.IsPercent) :
    (policy.apply x).IsPercent := by
  have hundred : (100 : Binary64).IsPercent := isPercent_ofNat le_rfl
  have hlow := apply_le_apply hallowed isPercent_zero hx hx.1
  have hhigh := apply_le_apply hallowed hx hundred hx.2
  rw [apply_zero] at hlow
  rw [apply_hundred hallowed] at hhigh
  exact ⟨hlow, hhigh⟩

end RoundingPolicy

namespace Rule

variable {rule : Rule} {aggregate : TypeAggregate}

/-- A rule on percentages holds nothing but percentages. -/
theorem isPercent_of_mem_doubles (haverage : aggregate.average.IsPercent)
    (hshare : aggregate.passedPercent.IsPercent)
    (hx : x ∈ (rule.outcome aggregate).details.doubles) : x.IsPercent := by
  have hrounded (demand : Demand) {y : Binary64} (hy : y.IsPercent) :
      (demand.rounded y).IsPercent := RoundingPolicy.isPercent_apply demand.allowed hy
  revert x
  cases rule with
  | overall type average =>
    simp only [outcome, RuleDetails.doubles, List.forall_mem_cons]
    exact ⟨haverage, hrounded average haverage, average.isPercent, by simp⟩
  | passedShare type average share =>
    simp only [outcome, RuleDetails.doubles, List.forall_mem_cons]
    exact ⟨haverage, hrounded average haverage, average.isPercent, hshare, hrounded share hshare,
      share.isPercent, by simp⟩

/-- A rule that asks for nothing passes on numbers that are not negative. -/
theorem passed_of_zero (hzero : ∀ demand ∈ rule.demands, (demand.required == 0) = true)
    (haverage : 0 ≤ aggregate.average) (hshare : 0 ≤ aggregate.passedPercent) :
    (rule.outcome aggregate).passed = true := by
  cases rule with
  | overall type average =>
    exact Demand.holds_of_nonneg (hzero average (by simp [demands])) haverage
  | passedShare type average share =>
    rw [outcome, Bool.and_eq_true]
    exact ⟨Demand.holds_of_nonneg (hzero average (by simp [demands])) haverage,
      Demand.holds_of_nonneg (hzero share (by simp [demands])) hshare⟩

end Rule

variable {results : List AssignmentResult} {type : AssignmentType}

/-- Let a student have less than `2 ^ 40` results, and let those of a type be percentages. Then the
    average and the share of passed results are percentages, no more results are passed than there
    are, and none is reported as out of range. Every rule on the type holds percentages only, also
    where it rounds them, and passes if all of its thresholds are zero. -/
theorem TypeAggregate.ofResults_of_isPercent (hcount : results.length < 2 ^ 40)
    (hpercents : ∀ r ∈ results, r.type = type → r.percent.IsPercent) :
    let aggregate := ofResults results type
    aggregate.average.IsPercent ∧ aggregate.passedPercent.IsPercent ∧
      aggregate.passed ≤ aggregate.count ∧ aggregate.outOfRange = [] ∧
      ∀ (criteria : Criteria) (place : Nat) (rule : Rule), criteria.rules[place]? = some rule →
        rule.type = type → ∃ result, (criteria.evaluate results).results[place]? = some result ∧
          (∀ percent ∈ result.details.doubles, percent.IsPercent) ∧
          ((∀ demand ∈ rule.demands, (demand.required == 0) = true) → result.passed = true) := by
  intro aggregate
  have hown : ∀ r ∈ matching results type, r.percent.IsPercent := by
    intro r hr
    obtain ⟨hmem, htype⟩ := List.mem_filter.1 hr
    exact hpercents r hmem (eq_of_beq htype)
  have hlength : (matching results type).length < 2 ^ 40 :=
    (List.length_filter_le _ _).trans_lt hcount
  have haverage : aggregate.average.IsPercent :=
    isPercent_mean (List.forall_mem_map.2 hown) (by rwa [List.length_map])
  have hshare : aggregate.passedPercent.IsPercent :=
    isPercent_percentOf List.countP_le_length hlength
  have hrange : aggregate.outOfRange = [] := by
    refine List.map_eq_nil_iff.2 (List.filter_eq_nil_iff.2 fun r hr => ?_)
    simp [hown r hr]
  refine ⟨haverage, hshare, List.countP_le_length, hrange, ?_⟩
  rintro criteria place rule hrule rfl
  refine ⟨rule.resultOn results place, ?_, fun percent hpercent => ?_, fun hzero => ?_⟩
  · rw [Criteria.getElem?_results_evaluate, hrule, Option.map_some]
  · exact Rule.isPercent_of_mem_doubles haverage hshare hpercent
  · exact Rule.passed_of_zero hzero haverage.1 hshare.1

/-- Nothing is asked of the homework, to ten decimal places. -/
def freeHomework : Rule :=
  let free : Demand := ⟨0, .decimals 10, isPercent_zero, by decide⟩
  .passedShare .homework free free

/-- Homework at both ends of the range, one with a negative zero, next to a testat beyond it. -/
theorem ofResults_of_isPercent_both_ends :
    let results : List AssignmentResult :=
      [⟨"a", .homework, 100, true⟩, ⟨"b", .testat, 250, true⟩, ⟨"c", .homework, -0, false⟩]
    (TypeAggregate.ofResults results .homework).average.IsPercent ∧
      (TypeAggregate.ofResults results .homework).outOfRange = [] ∧
      ∃ result, (Criteria.evaluate ⟨[freeHomework]⟩ results).results[0]? = some result ∧
        (∀ percent ∈ result.details.doubles, percent.IsPercent) ∧ result.passed = true := by
  intro results
  have hpercents : ∀ r ∈ results, r.type = .homework → r.percent.IsPercent := by decide +kernel
  obtain ⟨haverage, -, -, hrange, hrules⟩ :=
    TypeAggregate.ofResults_of_isPercent (by decide) hpercents
  obtain ⟨result, hresult, hrecorded, hpassed⟩ := hrules ⟨[freeHomework]⟩ 0 freeHomework rfl rfl
  exact ⟨haverage, hrange, result, hresult, hrecorded, hpassed (by decide +kernel)⟩

end CourseAdmission
