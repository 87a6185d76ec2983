import CourseAdmission.Proofs.Results.Growth
import CourseAdmission.Proofs.Verdict.TenthGrades

/-!
Students who reach a threshold with every single result.

The average of such a student is never below that of a student who reaches the threshold exactly
every time, so that student decides. The sum of that many thresholds is rounded before it is
divided, so the average may come out below the threshold, though not by more than one double.
-/

namespace CourseAdmission

open Binary64 ExactSum

/-- The average of `n` results of so many units each, in units. -/
def averageOfCopies (n units : Nat) : Nat :=
  roundUnits (roundUnits (n * units) 1 * unitsPerOne) (ofNat n).units

section

variable {n units : Nat}

theorem averageOfCopies_eq_div (hn : n ≤ significandLimit) :
    averageOfCopies n units = roundUnits (roundUnits (n * units) 1) n := by
  have hcount : (ofNat n).units = n * unitsPerOne := by rw [ofNat_eq hn]; rfl
  rw [averageOfCopies, hcount]
  rcases Nat.eq_zero_or_pos n with rfl | hpos
  · simp [roundUnits_zero]
  · exact roundUnits_mul_mul hpos unitsPerOne_pos

/-- Nothing is lost if the sum of the copies is a double. -/
theorem averageOfCopies_eq (hpos : 0 < n) (hn : n ≤ significandLimit) (hunits : OnGrid units)
    (hsum : OnGrid (n * units)) : averageOfCopies n units = units := by
  rw [averageOfCopies_eq_div hn, roundUnits_one hsum, Nat.mul_comm,
    roundUnits_mul_left hunits hpos]

theorem onGrid_sub_spacing (hunits : OnGrid units) : OnGrid (units - spacing units) := by
  have hwidth := lt_mul_spacing units
  apply onGrid_of_dvd (k := units.log2 - 52)
  · exact Nat.dvd_sub hunits (Nat.dvd_refl _)
  · rw [← spacing_eq]
    exact (Nat.sub_le _ _).trans hwidth.le

/-- The sum of the copies loses less than one spacing for each of them. -/
theorem mul_sub_spacing_le (n : Nat) (hpos : 0 < n) (units : Nat) :
    (units - spacing units) * n ≤ roundUnits (n * units) 1 := by
  obtain ⟨hclose, -⟩ := roundUnits_spec (n * units) Nat.one_pos
  rw [Nat.div_one, Nat.mul_one] at hclose
  have hwidth := Nat.mul_lt_mul_of_pos_left (lt_mul_spacing units) hpos
  have hspacing := spacing_pos units
  rw [Nat.sub_mul, Nat.mul_comm units]
  by_cases hwide : 1 < spacing (n * units)
  · have hlow := mul_spacing_le hwide
    rw [significandLimit] at hwidth
    have : spacing (n * units) ≤ 2 * (spacing units * n) := by
      nlinarith
    omega
  · have := Nat.le_mul_of_pos_left n hspacing
    omega

/-- The average of copies is at most one spacing below them. -/
theorem le_averageOfCopies_add_spacing (hpos : 0 < n) (hn : n ≤ significandLimit)
    (hunits : OnGrid units) : units ≤ averageOfCopies n units + spacing units := by
  have hle := le_roundUnits_of_le (onGrid_sub_spacing hunits) hpos (mul_sub_spacing_le n hpos units)
  rw [averageOfCopies_eq_div hn]
  omega

end

/-- A percentage is at least zero and at most a hundred, in units. -/
theorem signedUnits_of_isPercent {x : Binary64} (hx : x.IsPercent) :
    x.signedUnits = x.units ∧ x.units ≤ 100 * unitsPerOne := by
  obtain ⟨-, hlow, hhigh⟩ := isPercent_iff.1 hx
  have habs := natAbs_signedUnits x
  omega

variable {percents : List Binary64}

/-- Percentages do not exceed what the doubles hold, as long as they can be counted. -/
theorem magnitude_percents_lt (hpercents : ∀ p ∈ percents, p.IsPercent)
    (hlength : percents.length < Word.limit 64) :
    2 * magnitude (percents.map signedUnits) < unitLimit := by
  have hle := List.sum_le_card_nsmul ((percents.map signedUnits).map Int.natAbs)
    (100 * unitsPerOne) (by
      intro distance hdistance
      rw [List.map_map] at hdistance
      obtain ⟨p, hp, rfl⟩ := List.mem_map.1 hdistance
      rw [Function.comp_apply, natAbs_signedUnits]
      exact (signedUnits_of_isPercent (hpercents p hp)).2)
  rw [List.length_map, List.length_map, nsmul_eq_mul, Nat.cast_id] at hle
  exact two_mul_lt_unitLimit hle hlength

variable {required : Binary64} {n : Nat}

/-- The mean of copies of a percentage. -/
theorem mean_replicate (hrequired : required.IsPercent) (hpos : 0 < n) (hn : n < Word.limit 64) :
    (TypeAggregate.mean (List.replicate n required)).isFinite ∧
      (TypeAggregate.mean (List.replicate n required)).signedUnits =
        averageOfCopies n required.units := by
  have hpercents : ∀ p ∈ List.replicate n required, p.IsPercent :=
    fun p hp => List.eq_of_mem_replicate hp ▸ hrequired
  have hlength : (List.replicate n required).length < Word.limit 64 := by
    rwa [List.length_replicate]
  have hsum : ((List.replicate n required).map signedUnits).sum = (n * required.units : Nat) := by
    rw [List.map_replicate, List.sum_replicate, (signedUnits_of_isPercent hrequired).1,
      nsmul_eq_mul]
    push_cast
    rfl
  have hmean := TypeAggregate.mean_spec_of_sum_eq _ (by simpa using hpos.ne')
    (fun p hp => (hpercents p hp).isFinite) (magnitude_percents_lt hpercents hlength) hlength hsum
  rwa [List.length_replicate] at hmean

/-- Percentages from a threshold on have a mean that is not below that of the threshold itself. -/
theorem mean_replicate_le_mean (hrequired : required.IsPercent)
    (hpercents : ∀ p ∈ percents, required ≤ p ∧ p ≤ 100)
    (hlength : percents.length < Word.limit 64) :
    TypeAggregate.mean (List.replicate percents.length required) ≤
      TypeAggregate.mean percents := by
  have hcopies : ∀ p ∈ List.replicate percents.length required, p.IsPercent :=
    fun p hp => List.eq_of_mem_replicate hp ▸ hrequired
  have hbetween : ∀ p ∈ percents, p.IsPercent :=
    fun p hp => ⟨Binary64.le_trans hrequired.1 (hpercents p hp).1, (hpercents p hp).2⟩
  have hcopiesLength : (List.replicate percents.length required).length < Word.limit 64 := by
    rwa [List.length_replicate]
  apply TypeAggregate.mean_le_mean _ (fun p hp => (hcopies p hp).isFinite)
    (fun p hp => (hbetween p hp).isFinite) (magnitude_percents_lt hcopies hcopiesLength)
    (magnitude_percents_lt hbetween hlength) hcopiesLength
  rw [List.forall₂_iff_zip, List.length_replicate]
  refine ⟨rfl, fun {copy p} hmem => ?_⟩
  obtain ⟨hcopy, hp⟩ := List.of_mem_zip hmem
  rw [List.eq_of_mem_replicate hcopy]
  exact (hpercents p hp).1

/-- A student has `n` results of the type, each of them a percentage from the threshold on. -/
def ReachesWithEach (results : List AssignmentResult) (type : AssignmentType) (required : Binary64)
    (n : Nat) : Prop :=
  (TypeAggregate.matching results type).length = n ∧
    ∀ r ∈ TypeAggregate.matching results type, required ≤ r.percent ∧ r.percent ≤ 100

variable {type : AssignmentType} {results : List AssignmentResult}

/-- The average of copies of the threshold is a bound, in units. -/
theorem averageOfCopies_le_average (hrequired : required.IsPercent) (hpos : 0 < n)
    (hn : n < Word.limit 64) (hreaches : ReachesWithEach results type required n) :
    (TypeAggregate.ofResults results type).average.isFinite ∧
      averageOfCopies n required.units ≤
        (TypeAggregate.ofResults results type).average.signedUnits := by
  obtain ⟨hlength, heach⟩ := hreaches
  have hpercents : ∀ p ∈ (TypeAggregate.matching results type).map (·.percent),
      required ≤ p ∧ p ≤ 100 := by
    simpa using heach
  have hbetween : ∀ p ∈ (TypeAggregate.matching results type).map (·.percent), p.IsPercent :=
    fun p hp => ⟨Binary64.le_trans hrequired.1 (hpercents p hp).1, (hpercents p hp).2⟩
  have hcount : ((TypeAggregate.matching results type).map (·.percent)).length = n := by
    rw [List.length_map, hlength]
  obtain ⟨hmean, -⟩ := TypeAggregate.mean_spec _
    (List.ne_nil_of_length_pos (by omega)) (fun p hp => (hbetween p hp).isFinite)
    (magnitude_percents_lt hbetween (by omega)) (by omega)
  have hle := mean_replicate_le_mean hrequired hpercents (by omega)
  obtain ⟨hcopies, hcopiesValue⟩ := mean_replicate hrequired hpos hn
  rw [hcount, le_iff hcopies hmean, hcopiesValue] at hle
  exact ⟨hmean, hle⟩

/-- The results of a student who reaches the threshold exactly every time. -/
def copiesOf (type : AssignmentType) (required : Binary64) (n : Nat) : List AssignmentResult :=
  List.replicate n ⟨"", type, required, true⟩

theorem matching_copiesOf : TypeAggregate.matching (copiesOf type required n) type =
    copiesOf type required n := by
  rw [TypeAggregate.matching, List.filter_eq_self]
  intro r hr
  rw [List.eq_of_mem_replicate hr]
  exact beq_self_eq_true type

theorem reachesWithEach_copiesOf (hrequired : required.IsPercent) :
    ReachesWithEach (copiesOf type required n) type required n := by
  rw [ReachesWithEach, matching_copiesOf, copiesOf]
  refine ⟨List.length_replicate, fun r hr => ?_⟩
  rw [List.eq_of_mem_replicate hr]
  exact ⟨(le_iff hrequired.isFinite hrequired.isFinite).2 le_rfl, hrequired.2⟩

theorem average_copiesOf : (TypeAggregate.ofResults (copiesOf type required n) type).average =
    TypeAggregate.mean (List.replicate n required) := by
  rw [TypeAggregate.ofResults, matching_copiesOf, copiesOf, List.map_replicate]

/-- Consider an unrounded threshold on the average of a type, and students with `n` results of the
    type who reach it with each of them. All of them pass exactly if dividing the rounded sum of
    `n` thresholds gives at least the threshold, as it does if that sum is a double. In any case
    their averages are at most one spacing of the doubles below the threshold. -/
theorem Criteria.passedAt_of_reachesWithEach_iff {criteria : Criteria} {place : Nat}
    {average : Demand} (hrule : criteria.rules[place]? = some (.overall type average))
    (hrounding : average.rounding = .none) (hpos : 0 < n) (hn : n < Word.limit 64) :
    ((∀ results, ReachesWithEach results type average.required n →
          (criteria.evaluate results).passedAt place = some true) ↔
        average.required.units ≤ averageOfCopies n average.required.units) ∧
      (n ≤ significandLimit → OnGrid (n * average.required.units) →
        ∀ results, ReachesWithEach results type average.required n →
          (criteria.evaluate results).passedAt place = some true) ∧
      (n ≤ significandLimit → ∀ results, ReachesWithEach results type average.required n →
        average.required.units ≤
          (TypeAggregate.ofResults results type).average.units +
            spacing average.required.units) := by
  have hpercent := average.isPercent
  have hrequired := hpercent.isFinite
  obtain ⟨hvalue, -⟩ := signedUnits_of_isPercent hpercent
  have hgrid := onGrid_signedUnits average.required
  rw [natAbs_signedUnits] at hgrid
  have hpassed (results : List AssignmentResult) :
      (criteria.evaluate results).passedAt place = some true ↔
        average.required ≤ (TypeAggregate.ofResults results type).average := by
    rw [passedAt_overall hrule, Option.some_inj, Demand.holds, Demand.rounded, hrounding]
    exact decide_eq_true_iff
  have hall (hcopies : average.required.units ≤ averageOfCopies n average.required.units)
      (results : List AssignmentResult)
      (hreaches : ReachesWithEach results type average.required n) :
      (criteria.evaluate results).passedAt place = some true := by
    obtain ⟨hfinite, hle⟩ := averageOfCopies_le_average hpercent hpos hn hreaches
    rw [hpassed, le_iff hrequired hfinite, hvalue]
    omega
  refine ⟨⟨fun hpass => ?_, hall⟩, fun hexact hsum => ?_, fun hexact results hreaches => ?_⟩
  · obtain ⟨hcopies, hcopiesValue⟩ := mean_replicate hpercent hpos hn
    have hle := (hpassed _).1 (hpass _ (reachesWithEach_copiesOf hpercent))
    rw [average_copiesOf, le_iff hrequired hcopies, hvalue, hcopiesValue] at hle
    exact_mod_cast hle
  · exact hall (averageOfCopies_eq hpos hexact hgrid hsum).ge
  · obtain ⟨hfinite, hle⟩ := averageOfCopies_le_average hpercent hpos hn hreaches
    have hcopies := le_averageOfCopies_add_spacing hpos hexact hgrid
    have habs := natAbs_signedUnits (TypeAggregate.ofResults results type).average
    omega

/-- The criteria with one unrounded threshold on the average homework. -/
def homeworkAverage (required : Binary64) (hrequired : required.IsPercent) : Criteria :=
  ⟨[.overall .homework ⟨required, .none, hrequired, trivial⟩]⟩

/-- Whole thresholds have sums that are doubles. -/
theorem passedAt_of_reachesWithEach_fifty :
    ((homeworkAverage 50 isPercent_fifty).evaluate [⟨"a", .homework, 50, true⟩,
      ⟨"b", .homework, 50, true⟩, ⟨"c", .homework, 51, true⟩]).passedAt 0 = some true :=
  (Criteria.passedAt_of_reachesWithEach_iff rfl rfl (n := 3) (by decide) (by decide)).2.1
    (by decide +kernel) (by decide +kernel) _ ⟨by decide, by decide +kernel⟩

-- Three thresholds of `42.8` sum up to what is divided into less than one of them.
example : ((homeworkAverage (.ofDecimal false 428 (-1)) (by decide +kernel)).evaluate
    (copiesOf .homework (.ofDecimal false 428 (-1)) 3)).passedAt 0 = some false := by
  decide +kernel

end CourseAdmission
