import CourseAdmission.Proofs.ExactSum.Bounds
import CourseAdmission.Proofs.ExactSum.Sweep

/-!
What an exact sum holds after any number of finite values: partials that are spread out and add up
to the exact sum, as long as twice the values' magnitude stays within the doubles.

As doubles, the partials share no binary digit: each lies below the last digit of every later one
that is not zero.
-/

namespace CourseAdmission.ExactSum

open Binary64

/-- Absorbing a value computes the partials without error, if no running sum leaves the doubles. -/
theorem absorb_spec {value : Binary64} {partials : List Binary64} (hvalue : value.isFinite)
    (hfinite : ∀ p ∈ partials, p.isFinite)
    (hroom : ∀ p ∈ partials, 2 * p.signedUnits.natAbs ≤ unitLimit)
    (hsums : ∀ front rest, partials.map signedUnits = front ++ rest →
      (runningSum value.signedUnits front).natAbs < unitLimit) :
    (∀ p ∈ absorb value partials, p.isFinite) ∧
      (absorb value partials).map signedUnits =
        absorbUnits value.signedUnits (partials.map signedUnits) := by
  induction partials generalizing value with
  | nil => exact ⟨by simpa [absorb] using hvalue, rfl⟩
  | cons p greater ih =>
    have hp := hfinite p (by simp)
    obtain ⟨hhigh, hhighValue, hlow, hlowValue⟩ := twoSum_spec hvalue hp (.inr (hroom p (by simp)))
      (hsums [p.signedUnits] (greater.map signedUnits) rfl)
    obtain ⟨hrest, hrestValues⟩ := ih hhigh (fun q hq => hfinite q (by simp [hq]))
      (fun q hq => hroom q (by simp [hq])) fun front rest hsplit => by
        rw [hhighValue]
        exact hsums (p.signedUnits :: front) rest (by rw [List.map_cons, hsplit]; rfl)
    have hzero := beq_zero_iff hlow
    rw [hlowValue] at hzero
    rw [hhighValue] at hrestValues
    unfold absorb
    rw [List.map_cons, absorbUnits]
    dsimp only
    by_cases hexact : value.signedUnits + p.signedUnits -
        roundInt (value.signedUnits + p.signedUnits) = 0
    · rw [if_pos (hzero.2 hexact), if_pos hexact]
      exact ⟨hrest, hrestValues⟩
    · rw [if_neg (mt hzero.1 hexact), if_neg hexact, List.map_cons, hlowValue, hrestValues]
      refine ⟨fun q hq => ?_, rfl⟩
      rcases List.mem_cons.1 hq with rfl | hq
      · exact hlow
      · exact hrest q hq

/-- The sum holds values that add up to `exact` and are at most `reach` in magnitude together. -/
structure Holds (sum : ExactSum) (exact : Int) (reach : Nat) : Prop where
  nonFinite : (sum.nonFinite == 0) = true
  finite : ∀ p ∈ sum.partials, p.isFinite
  spread : Spread (sum.partials.map signedUnits)
  bounded : Bounded (sum.partials.map signedUnits) reach
  sum_eq : (sum.partials.map signedUnits).sum = exact

theorem zero_beq_zero : (Binary64.zero == 0) = true := by
  have hround : roundUnits 0 1 = 0 := roundUnits_one (onGrid_of_le (Nat.zero_le _))
  have hzero := ofQuotient_of_lt (n := 0) (d := 1) false (hround.trans_lt unitLimit_pos)
  rw [Binary64.zero, hzero, beq_zero_iff rfl, signedUnits_finite_false, hround]
  rfl

theorem holds_empty : Holds empty 0 0 where
  nonFinite := by
    dsimp only [empty]
    exact zero_beq_zero
  finite := by simp [empty]
  spread := ⟨by simp [empty], by simp [empty], by simp [empty]⟩
  bounded := ⟨by simp [empty], by simp [empty]⟩
  sum_eq := by simp [empty]

/-- A partial leaves room for another one of its size. -/
theorem Bounded.two_mul_le {partials : List Int} {total : Nat} (hbounded : Bounded partials total)
    (htotal : 2 * total < unitLimit) : ∀ p ∈ partials, 2 * p.natAbs ≤ unitLimit := by
  intro p hp
  obtain ⟨k, hlimit⟩ := unitLimit_eq_four_mul
  have := hbounded.le_pow (k + 1) (by rw [Nat.pow_succ]; omega) p hp
  rw [Nat.pow_succ] at this
  omega

/-- One more finite value is added without error. -/
theorem Holds.add {sum : ExactSum} {exact : Int} {reach : Nat} {value : Binary64}
    (hsum : Holds sum exact reach) (hvalue : value.isFinite)
    (hreach : 2 * (reach + value.signedUnits.natAbs) < unitLimit) :
    Holds (sum.add value) (exact + value.signedUnits) (reach + value.signedUnits.natAbs) := by
  obtain ⟨hnonFinite, hfinite, hspread, hbounded, hexact⟩ := hsum
  have hgrid := onGrid_signedUnits value
  have hroom := hbounded.two_mul_le (by omega)
  obtain ⟨hpartials, hunits⟩ := absorb_spec hvalue hfinite
    (fun p hp => hroom _ (List.mem_map_of_mem hp)) fun front rest hsplit =>
      runningSum_lt_unitLimit (hsplit ▸ hspread) (hsplit ▸ hbounded) hgrid hreach
  rw [add_eq, if_pos hvalue]
  refine ⟨hnonFinite, hpartials, ?_, ?_, ?_⟩
  · rw [hunits]
    exact hspread.absorbUnits hgrid
  · rw [hunits]
    exact hbounded.absorbUnits hspread hgrid
  · rw [hunits, sum_absorbUnits, hexact, Int.add_comm]

theorem ofList_append_singleton (values : List Binary64) (value : Binary64) :
    ofList (values ++ [value]) = (ofList values).add value := by
  simp [ofList]

/-- An exact sum holds the values it was made from, in whatever order they came. -/
theorem holds_ofList {values : List Binary64} (hfinite : ∀ v ∈ values, v.isFinite)
    (hroom : 2 * magnitude (values.map signedUnits) < unitLimit) :
    Holds (ofList values) (values.map signedUnits).sum (magnitude (values.map signedUnits)) := by
  induction values using List.reverseRecOn with
  | nil => exact holds_empty
  | append_singleton values value ih =>
    simp only [List.map_append, List.map_cons, List.map_nil, magnitude_append, magnitude_cons,
      magnitude_nil, Nat.add_zero, List.sum_append, List.sum_singleton] at hroom ⊢
    rw [ofList_append_singleton]
    exact (ih (fun v hv => hfinite v (by simp [hv])) (by omega)).add (hfinite value (by simp)) hroom

/-- The first number lies below every binary digit that is set in the second. -/
structure Apart (small large : Binary64) : Prop where
  lt : small.units < large.units
  disjoint : small.units &&& large.units = 0
  below : ∀ digit, large.units.testBit digit = true → small.units < 2 ^ digit

theorem Below.apart {small large : Binary64} (hbelow : Below small.signedUnits large.signedUnits)
    (hne : large.units ≠ 0) : Apart small large := by
  obtain ⟨k, hk, hdvd⟩ := hbelow
  rw [natAbs_signedUnits] at hk
  rw [two_pow_dvd_iff, natAbs_signedUnits] at hdvd
  have hsmall : small.units < 2 ^ k := by
    have := Nat.two_pow_pos k
    omega
  have hdigits (digit : Nat) (hset : large.units.testBit digit = true) :
      small.units < 2 ^ digit := by
    obtain ⟨rest, hrest⟩ := hdvd
    rw [hrest, Nat.testBit_two_pow_mul, Bool.and_eq_true, decide_eq_true_iff] at hset
    exact hsmall.trans_le (Nat.pow_le_pow_right (by decide) hset.1)
  refine ⟨hsmall.trans_le (Nat.le_of_dvd (Nat.pos_of_ne_zero hne) hdvd), ?_, hdigits⟩
  apply Nat.eq_of_testBit_eq
  intro digit
  rw [Nat.testBit_and, Nat.zero_testBit]
  cases hset : large.units.testBit digit with
  | false => exact Bool.and_false _
  | true => rw [Nat.testBit_lt_two_pow (hdigits digit hset), Bool.false_and]

/-- Partials stand for an exact sum, in units. -/
structure Represents (partials : List Binary64) (exact : Int) : Prop where
  finite : ∀ p ∈ partials, p.isFinite
  sum_eq : (partials.map signedUnits).sum = exact
  ne_zero : ∀ p ∈ partials.dropLast, p.units ≠ 0
  apart : partials.Pairwise fun small large => large.units ≠ 0 → Apart small large

theorem Holds.represents {sum : ExactSum} {exact : Int} {reach : Nat}
    (hsum : Holds sum exact reach) : Represents sum.partials exact where
  finite := hsum.finite
  sum_eq := hsum.sum_eq
  ne_zero p hp := by
    have hmem : p.signedUnits ∈ (sum.partials.map signedUnits).dropLast := by
      rw [← List.map_dropLast]
      exact List.mem_map_of_mem hp
    have hne := hsum.spread.ne_zero _ hmem
    rw [← natAbs_signedUnits]
    omega
  apart := (List.pairwise_map.1 hsum.spread.below).imp fun hbelow hne => hbelow.apart hne

/-- Let the absolute values of finite values sum up to less than `2 ^ 1023`. After each of them the
    partials stand for the exact sum so far. While the next one is added, nothing is written beyond
    the place that is read, so every partial is read as it was. -/
theorem represents_ofList {values : List Binary64} (hfinite : ∀ v ∈ values, v.isFinite)
    (hroom : 2 * magnitude (values.map signedUnits) < unitLimit) (count : Nat) :
    Represents (ofList (values.take count)).partials
        ((values.take count).map signedUnits).sum ∧
      ∀ value read, (Sweep.after value (ofList (values.take count)).partials read).Unspoiled
        (ofList (values.take count)).partials read := by
  refine ⟨?_, fun value read => Sweep.unspoiled_after value _ read⟩
  have hfront : ∀ v ∈ values.take count, v.isFinite := fun v hv =>
    hfinite v (List.mem_of_mem_take hv)
  rw [← List.take_append_drop count values, List.map_append, magnitude_append] at hroom
  exact (holds_ofList hfront (by omega)).represents

/-- A great value that comes and goes, and a small one that it covers. -/
def comingAndGoing : List Binary64 :=
  [.ofNat 10000000000000000, .ofDecimal false 1 (-1), .ofInt (-10000000000000000)]

theorem represents_ofList_comingAndGoing :
    (∀ v ∈ comingAndGoing, v.isFinite) ∧
      2 * magnitude (comingAndGoing.map signedUnits) < unitLimit ∧
      Represents (ofList (comingAndGoing.take 2)).partials
        ((comingAndGoing.take 2).map signedUnits).sum ∧
      Represents (ofList (comingAndGoing.take 3)).partials
        ((comingAndGoing.take 3).map signedUnits).sum := by
  have hfinite : ∀ v ∈ comingAndGoing, v.isFinite := by decide +kernel
  have hroom : 2 * magnitude (comingAndGoing.map signedUnits) < unitLimit := by decide +kernel
  exact ⟨hfinite, hroom, (represents_ofList hfinite hroom 2).1,
    (represents_ofList hfinite hroom 3).1⟩

-- The great value leaves a zero behind.
example : (ofList comingAndGoing).partials = [.ofDecimal false 1 (-1), 0] := by decide +kernel

end CourseAdmission.ExactSum
