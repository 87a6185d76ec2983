import CourseAdmission.Proofs.Criteria.Demand
import CourseAdmission.Proofs.Results.Mean
import CourseAdmission.Proofs.Verdict.Evaluate
import Mathlib.Algebra.Order.BigOperators.Group.List

/-!
Grades with one decimal place, and when their average is the whole number that their mean is.

A grade is rounded when it is read, their sum is rounded once more, and the quotient a third time.
The quotient undoes nothing: the average is the mean exactly if the sum of the grades as they are
read rounds to the sum of the grades as they are written.
-/

namespace CourseAdmission

open Binary64 ExactSum

/-- A grade of so many tenths of a percent, as it is read. -/
def tenth (k : Nat) : Binary64 := .ofDecimal false k (-1)

/-- The exact sum of grades as they are read, in units. -/
def readSum (grades : List Nat) : Nat := (grades.map fun k => (tenth k).units).sum

/-- A tenth is the nearest double to it, and a percentage stays one. -/
theorem tenth_spec {k : Nat} (hk : k ≤ 1000) :
    (tenth k).isFinite ∧ (tenth k).isNegative = false ∧
      (tenth k).units = roundUnits (k * unitsPerOne) 10 ∧ (tenth k).units ≤ 100 * unitsPerOne := by
  have hhundred := onGrid_mul_unitsPerOne (n := 100) (by decide)
  have hle : roundUnits (k * unitsPerOne) 10 ≤ 100 * unitsPerOne := by
    apply roundUnits_le_of_le hhundred (by decide)
    calc k * unitsPerOne ≤ 1000 * unitsPerOne := Nat.mul_le_mul_right _ hk
      _ = 100 * unitsPerOne * 10 := by ring
  have hread : tenth k = ofQuotient false (k * unitsPerOne) 10 := by
    rw [tenth, ofDecimal]
    split
    case isTrue hzero =>
      have hround := (roundUnits_zero 1).trans (roundUnits_zero 10).symm
      rw [hzero, Nat.zero_mul, ofQuotient_congr false hround]
    case isFalse hne =>
      have hlog : k.log2 < 10 := (Nat.log2_lt hne).2 (by omega)
      rw [if_neg (by omega), if_neg (by omega), if_neg (by omega)]
      rfl
  obtain ⟨hfinite, hsign, hunits⟩ := ofQuotient_spec (n := k * unitsPerOne) (d := 10) false
    (hle.trans_lt (mul_unitsPerOne_lt (by decide)))
  rw [hread, hunits]
  exact ⟨hfinite, hsign, rfl, hle⟩

section

variable {grades : List Nat}

theorem signedUnits_tenths (hrange : ∀ k ∈ grades, k ≤ 1000) :
    (grades.map tenth).map signedUnits = grades.map fun k => ((tenth k).units : Int) := by
  rw [List.map_map]
  apply List.map_congr_left
  intro k hk
  rw [Function.comp_apply, signedUnits_eq, (tenth_spec (hrange k hk)).2.1, if_neg (by decide)]

theorem magnitude_tenths (hrange : ∀ k ∈ grades, k ≤ 1000) :
    magnitude ((grades.map tenth).map signedUnits) = readSum grades := by
  rw [signedUnits_tenths hrange, magnitude, readSum, List.map_map]
  rfl

theorem sum_tenths (hrange : ∀ k ∈ grades, k ≤ 1000) :
    ((grades.map tenth).map signedUnits).sum = readSum grades := by
  rw [signedUnits_tenths hrange, readSum]
  induction grades with
  | nil => rfl
  | cons k grades ih =>
    simp only [List.map_cons, List.sum_cons]
    rw [ih fun k hk => hrange k (by simp [hk])]
    push_cast
    rfl

theorem readSum_le (hrange : ∀ k ∈ grades, k ≤ 1000) :
    readSum grades ≤ grades.length * (100 * unitsPerOne) := by
  have hle := List.sum_le_card_nsmul (grades.map fun k => (tenth k).units) (100 * unitsPerOne)
    (by
      intro units hunits
      obtain ⟨k, hk, rfl⟩ := List.mem_map.1 hunits
      exact (tenth_spec (hrange k hk)).2.2.2)
  simpa [readSum] using hle

theorem readSum_room (hrange : ∀ k ∈ grades, k ≤ 1000) (hlength : grades.length < Word.limit 64) :
    2 * readSum grades < unitLimit :=
  two_mul_lt_unitLimit (readSum_le hrange) hlength

/-- The average of grades in tenths, in units. -/
theorem average_tenths {results : List AssignmentResult} {type : AssignmentType}
    (hgrades : (TypeAggregate.matching results type).map (·.percent) = grades.map tenth)
    (hrange : ∀ k ∈ grades, k ≤ 1000) (hne : grades ≠ [])
    (hlength : grades.length < Word.limit 64) :
    (TypeAggregate.ofResults results type).average.isFinite ∧
      (TypeAggregate.ofResults results type).average.signedUnits =
        roundUnits (roundUnits (readSum grades) 1 * unitsPerOne) (ofNat grades.length).units := by
  have hmean := TypeAggregate.mean_spec_of_sum_eq (grades.map tenth) (by simpa using hne)
    (by
      intro p hp
      obtain ⟨k, hk, rfl⟩ := List.mem_map.1 hp
      exact (tenth_spec (hrange k hk)).1)
    (by rw [magnitude_tenths hrange]; exact readSum_room hrange hlength) (by simpa using hlength)
    (sum_tenths hrange)
  rw [List.length_map] at hmean
  rw [TypeAggregate.ofResults, hgrades]
  exact hmean

theorem readSum_eq_zero (hzero : grades.sum = 0) : readSum grades = 0 := by
  rw [readSum, List.sum_eq_zero_iff]
  intro units hunits
  obtain ⟨k, hk, rfl⟩ := List.mem_map.1 hunits
  have hk0 : k = 0 := List.sum_eq_zero_iff.1 hzero k hk
  rw [hk0, (tenth_spec (by decide)).2.2.1, Nat.zero_mul, roundUnits_zero]

/-- Dividing the rounded sum by the number of grades gives the whole number back exactly if the
    rounded sum is that many times it. -/
theorem quotient_eq_iff {m n sum : Nat} (hn : 0 < n) (hm : m ≤ 100)
    (hexact : 100 * n ≤ significandLimit) (hzero : m = 0 → sum = 0) :
    roundUnits (roundUnits sum 1 * unitsPerOne) (ofNat n).units = m * unitsPerOne ↔
      roundUnits sum 1 = n * m * unitsPerOne := by
  have hone := unitsPerOne_pos
  have hcount : (ofNat n).units = n * unitsPerOne := by rw [ofNat_eq (by omega)]; rfl
  rw [hcount, roundUnits_mul_mul hn hone, Nat.mul_assoc]
  rcases Nat.eq_zero_or_pos m with rfl | hpos
  · simp [hzero, roundUnits_zero]
  · apply roundUnits_eq_iff_eq_mul hn (onGrid_roundUnits _ _)
    · exact onGrid_mul_unitsPerOne (hm.trans (by decide))
    · rw [← Nat.mul_assoc]
      apply onGrid_mul_unitsPerOne
      have := Nat.mul_le_mul_left n hm
      omega
    · exact one_lt_spacing hpos

end

/-! What rules with whole thresholds make of an average -/

/-- The rule at a place demands a whole average of a type, which is compared as it is or taken to a
    whole number. -/
def Criteria.DemandsWhole (criteria : Criteria) (place : Nat) (type : AssignmentType)
    (required : Nat) : Prop :=
  ∃ average : Demand, criteria.rules[place]? = some (.overall type average) ∧
    (average.required == .ofNat required) = true ∧ average.rounding ∈ [.none, .down, .up]

/-- Whether the rule at a place passed. -/
def Verdict.passedAt (verdict : Verdict) (place : Nat) : Option Bool :=
  verdict.results[place]?.map (·.passed)

variable {criteria : Criteria} {results : List AssignmentResult} {type : AssignmentType} {m : Nat}

theorem passedAt_overall {place : Nat} {average : Demand}
    (hrule : criteria.rules[place]? = some (.overall type average)) :
    (criteria.evaluate results).passedAt place =
      some (average.holds (TypeAggregate.ofResults results type).average) := by
  rw [Verdict.passedAt, Criteria.getElem?_results_evaluate, hrule]
  rfl

/-- An average that is a whole number reaches it and misses the next one. -/
theorem passedAt_of_average_eq {place : Nat} (hm : m ≤ 100)
    (hfinite : (TypeAggregate.ofResults results type).average.isFinite)
    (haverage : (TypeAggregate.ofResults results type).average.signedUnits = m * unitsPerOne) :
    (criteria.DemandsWhole place type m →
        (criteria.evaluate results).passedAt place = some true) ∧
      (criteria.DemandsWhole place type (m + 1) →
        (criteria.evaluate results).passedAt place = some false) := by
  have hone : (0 : Int) < unitsPerOne := by exact_mod_cast unitsPerOne_pos
  have hnext : ((m + 1 : Nat) * unitsPerOne : Int) = m * unitsPerOne + unitsPerOne := by
    push_cast
    ring
  constructor
  · rintro ⟨average, hrule, hrequired, hrounding⟩
    rw [passedAt_overall hrule, Option.some_inj]
    have hlimit : m ≤ significandLimit := hm.trans (by decide)
    simp only [List.mem_cons, List.not_mem_nil, or_false, ← or_assoc] at hrounding
    rcases hrounding with hrounding | hrounding
    · exact (Demand.holds_iff_of_none_or_down hrounding hlimit hrequired hfinite).2 (by omega)
    · exact (Demand.holds_iff_of_up hrounding hlimit hrequired hfinite).2 (by omega)
  · rintro ⟨average, hrule, hrequired, hrounding⟩
    rw [passedAt_overall hrule, Option.some_inj, Bool.eq_false_iff]
    have hlimit : m + 1 ≤ significandLimit := (Nat.succ_le_succ hm).trans (by decide)
    simp only [List.mem_cons, List.not_mem_nil, or_false, ← or_assoc] at hrounding
    rcases hrounding with hrounding | hrounding
    · rw [ne_eq, Demand.holds_iff_of_none_or_down hrounding hlimit hrequired hfinite]
      omega
    · rw [ne_eq, Demand.holds_iff_of_up hrounding hlimit hrequired hfinite]
      omega

theorem exists_wholeDemand (hm : m ≤ 100) (rounding : RoundingPolicy)
    (hallowed : rounding.Allowed) :
    ∃ demand : Demand, (demand.required == .ofNat m) = true ∧ demand.rounding = rounding := by
  refine ⟨⟨.ofNat m, rounding, isPercent_ofNat hm, hallowed⟩, ?_, rfl⟩
  dsimp only
  exact beq_self (ofNat_spec (hm.trans (by decide))).1

/-- Only an average that is the whole number reaches it unrounded and misses the next one when it is
    rounded up. -/
theorem average_eq_of_passedAt (hm : m < 100)
    (hfinite : (TypeAggregate.ofResults results type).average.isFinite)
    (hpassed : ∀ (criteria : Criteria) (place : Nat),
      (criteria.DemandsWhole place type m →
        (criteria.evaluate results).passedAt place = some true) ∧
      (criteria.DemandsWhole place type (m + 1) →
        (criteria.evaluate results).passedAt place = some false)) :
    (TypeAggregate.ofResults results type).average.signedUnits = m * unitsPerOne := by
  obtain ⟨reached, hreached, hreachedRounding⟩ := exists_wholeDemand hm.le .none trivial
  obtain ⟨missed, hmissed, hmissedRounding⟩ := exists_wholeDemand hm .up trivial
  have hpass := (hpassed ⟨[.overall type reached]⟩ 0).1
    ⟨reached, rfl, hreached, by simp [hreachedRounding]⟩
  have hfail := (hpassed ⟨[.overall type missed]⟩ 0).2
    ⟨missed, rfl, hmissed, by simp [hmissedRounding]⟩
  rw [passedAt_overall rfl, Option.some_inj, Demand.holds_iff_of_none_or_down
    (.inl hreachedRounding) (hm.le.trans (by decide)) hreached hfinite] at hpass
  rw [passedAt_overall rfl, Option.some_inj, Bool.eq_false_iff, ne_eq, Demand.holds_iff_of_up
    hmissedRounding ((Nat.succ_le_of_lt hm).trans (by decide)) hmissed hfinite] at hfail
  push_cast at hfail
  rw [Int.add_mul] at hfail
  omega

/-- Of grades in tenths whose mean is the whole number `m`, the average is `m` exactly if the
    rounded sum divided by the rounded number of grades rounds to it; as long as whole numbers of
    the size of the sum are exact, this is the case exactly if the grades as they are read sum up to
    what rounds to their sum as they are written. Then, and for `m` below 100 only then, every rule
    that demands `m` passes and every rule that demands `m + 1` fails, whether the average is
    compared as it is or taken up or down to a whole number. -/
theorem average_eq_mean_iff {grades : List Nat}
    (hgrades : (TypeAggregate.matching results type).map (·.percent) = grades.map tenth)
    (hrange : ∀ k ∈ grades, k ≤ 1000) (hne : grades ≠ []) (hlength : grades.length < Word.limit 64)
    (hmean : grades.sum = 10 * m * grades.length) :
    (((TypeAggregate.ofResults results type).average == .ofNat m) = true ↔
        roundUnits (roundUnits (readSum grades) 1 * unitsPerOne)
          (Binary64.ofNat grades.length).units = m * unitsPerOne) ∧
      (100 * grades.length ≤ significandLimit →
        (((TypeAggregate.ofResults results type).average == .ofNat m) = true ↔
          roundUnits (readSum grades) 1 = grades.length * m * unitsPerOne)) ∧
      (((TypeAggregate.ofResults results type).average == .ofNat m) = true →
        ∀ (criteria : Criteria) (place : Nat),
          (criteria.DemandsWhole place type m →
            (criteria.evaluate results).passedAt place = some true) ∧
          (criteria.DemandsWhole place type (m + 1) →
            (criteria.evaluate results).passedAt place = some false)) ∧
      (m < 100 → (∀ (criteria : Criteria) (place : Nat),
          (criteria.DemandsWhole place type m →
            (criteria.evaluate results).passedAt place = some true) ∧
          (criteria.DemandsWhole place type (m + 1) →
            (criteria.evaluate results).passedAt place = some false)) →
        ((TypeAggregate.ofResults results type).average == .ofNat m) = true) := by
  have hpos := List.length_pos_iff.2 hne
  have hm : m ≤ 100 := by
    have hle : grades.sum ≤ grades.length * 1000 := by
      simpa using List.sum_le_card_nsmul grades 1000 hrange
    rw [hmean] at hle
    nlinarith
  obtain ⟨hwhole, hvalue⟩ := ofNat_spec (n := m) (hm.trans (by decide))
  obtain ⟨hfinite, haverage⟩ := average_tenths hgrades hrange hne hlength
  have heq := beq_iff hfinite hwhole
  rw [hvalue] at heq
  have hformula : ((TypeAggregate.ofResults results type).average == .ofNat m) = true ↔
      roundUnits (roundUnits (readSum grades) 1 * unitsPerOne)
        (Binary64.ofNat grades.length).units = m * unitsPerOne := by
    rw [heq, haverage]
    exact Int.ofNat_inj
  refine ⟨hformula, fun hexact => ?_, fun hequal criteria place => ?_, fun hless hpassed => ?_⟩
  · rw [hformula]
    apply quotient_eq_iff hpos hm hexact
    rintro rfl
    exact readSum_eq_zero (by simpa using hmean)
  · exact passedAt_of_average_eq hm hfinite (by rw [heq.1 hequal]; push_cast; rfl)
  · rw [heq, average_eq_of_passedAt hless hfinite hpassed]
    push_cast
    rfl

/-- One student's homework with these grades in tenths. -/
def homeworkOf (grades : List Nat) : List AssignmentResult :=
  grades.map fun k => ⟨"", .homework, tenth k, true⟩

theorem percents_homeworkOf (grades : List Nat) :
    (TypeAggregate.matching (homeworkOf grades) .homework).map (·.percent) = grades.map tenth := by
  rw [TypeAggregate.matching, homeworkOf, List.filter_map, List.filter_eq_self.2 (by simp),
    List.map_map]
  rfl

/-- Grades whose average is their mean. -/
theorem average_eq_mean_of_seventy :
    ((TypeAggregate.ofResults (homeworkOf [583, 701, 816]) .homework).average == .ofNat 70) =
      true :=
  ((average_eq_mean_iff (percents_homeworkOf _) (by decide) (by decide) (by decide)
    (by decide)).2.1 (by decide)).2 (by decide +kernel)

-- Grades whose average is not: what reading them adds moves the rounded sum off their sum.
example : roundUnits (readSum [649, 337, 4]) 1 ≠ 3 * 33 * unitsPerOne := by decide +kernel

end CourseAdmission
