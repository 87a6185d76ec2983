import CourseAdmission.Proofs.RoundingPolicy.Places
import Mathlib.Tactic.IntervalCases

/-!
Decimals in the middle between two decimals of so many places.

The steadied value is there to find such a tie again, although most of them are no doubles. It does
as long as the tie is less than `2 ^ 22` places, so for every percentage at up to four places. With
more places the scaled value is coarser than the steps that ties are taken to, so a tie that was
read too low stays too low.
-/

namespace CourseAdmission

open Binary64

namespace RoundingPolicy

variable {places halves k : Nat}

/-- The decimal in the middle between `k` and `k + 1` of so many places, as it is read. -/
def tie (places k : Nat) : Binary64 := .ofDecimal false (5 * (2 * k + 1)) (-(places + 1 : Nat))

/-- On both sides of zero the tie is taken to the decimal that is further away. -/
def TieGoesAway (places k : Nat) : Prop :=
  (decimals places).apply (tie places k) = .ofDecimal false (k + 1) (-places) ∧
    (decimals places).apply (-tie places k) = -.ofDecimal false (k + 1) (-places)

instance (places k : Nat) : Decidable (TieGoesAway places k) := inferInstanceAs (Decidable (_ ∧ _))

theorem tie_spec (hplaces : places ≤ maxPlaces) (htie : 2 * k + 1 ≤ 2000 * 10 ^ places) :
    (tie places k).isFinite ∧ (tie places k).isNegative = false ∧
      (tie places k).units = readHalves places (2 * k + 1) := by
  have hexact : places + 1 ≤ 22 := (Nat.succ_le_succ hplaces).trans (by decide)
  have hfew : 5 * (2 * k + 1) < 10 ^ 15 := few_digits hplaces (by omega)
  obtain ⟨hfinite, hsign, hunits⟩ := units_ofDecimal false hfew hexact
  refine ⟨hfinite, hsign, hunits.trans ?_⟩
  have hpos : 0 < 10 ^ places := Nat.pow_pos (by decide)
  exact roundUnits_congr (Nat.pow_pos (by decide)) (by omega) (by ring)

/-- A tie of less than `2 ^ 22` places is not left too low. The error of reading it is a half of
    what the scaled value has digits for, and that is less than a half of the steps that the scaled
    value is taken to. -/
theorem mul_le_steadiedUnits (hplaces : places ≤ maxPlaces) (hfew : halves ≤ 2 ^ 23) :
    halves * unitsPerOne ≤ 2 * steadiedUnits places (readHalves places halves) := by
  have hone := unitsPerOne_pos
  rcases Nat.eq_zero_or_pos halves with rfl | hpos
  · rw [Nat.zero_mul]
    exact Nat.zero_le _
  have hread : (2 ^ 30 * halves - 1) * unitsPerOne ≤
      2 ^ 31 * (readHalves places halves * 10 ^ places) := by
    have hrelative := (readHalves_relative hpos hplaces).1
    have hpart := Nat.mul_le_mul_right unitsPerOne hfew
    rw [Nat.sub_mul, Nat.mul_assoc]
    omega
  have hscaled : (2 ^ 30 * halves - 1) * unitsPerOne ≤
      2 ^ 31 * scaledUnits places (readHalves places halves) := by
    refine le_roundUnits_of_fraction_le Nat.one_pos ?_ (by decide) (by rwa [Nat.mul_one])
    have : 2 ^ 30 * 2 ^ 23 ≤ significandLimit := by decide
    omega
  have htied : (10 ^ 9 * halves - 1) * unitsPerOne ≤
      2 * roundUnits (scaledUnits places (readHalves places halves) * 10 ^ tiePlaces) 1 := by
    refine le_roundUnits_of_fraction_le (b := 1) Nat.one_pos ?_ (by decide) ?_
    · have : 10 ^ 9 * 2 ^ 23 ≤ significandLimit := by decide
      omega
    · rw [show 10 ^ tiePlaces = 1000000000 from rfl, Nat.mul_one, Nat.sub_mul, Nat.mul_assoc]
      rw [Nat.sub_mul, Nat.mul_assoc] at hscaled
      omega
  have hsteps : 500000000 * halves ≤ tieSteps places (readHalves places halves) := by
    rw [tieSteps, le_nearestTo_iff hone]
    rw [Nat.sub_mul, Nat.mul_assoc] at htied
    rw [← Nat.mul_assoc, Nat.mul_assoc]
    omega
  refine le_roundUnits_of_fraction_le (b := 1) (by decide) (hfew.trans (by decide)) (by decide) ?_
  calc halves * unitsPerOne * 10 ^ tiePlaces = 2 ^ 1 * (500000000 * halves * unitsPerOne) := by
        rw [show 10 ^ tiePlaces = 2 ^ 1 * 500000000 from rfl]
        ring
    _ ≤ 2 ^ 1 * (tieSteps places (readHalves places halves) * unitsPerOne) :=
      Nat.mul_le_mul_left _ (Nat.mul_le_mul_right _ hsteps)

/-- A tie is rounded to one of its neighbours, and away from zero exactly if the steadied value
    reaches it. -/
theorem roundedPlaces_tie (hplaces : places ≤ maxPlaces) (htie : 2 * k + 1 ≤ 2000 * 10 ^ places) :
    roundedPlaces places (readHalves places (2 * k + 1)) =
      if (2 * k + 1) * unitsPerOne ≤ 2 * steadiedUnits places (readHalves places (2 * k + 1)) then
        k + 1 else k := by
  have hone := unitsPerOne_pos
  obtain ⟨hlow, hhigh⟩ := steadiedUnits_near (Nat.succ_pos (2 * k)) hplaces htie
  unfold roundedPlaces
  generalize steadiedUnits places (readHalves places (2 * k + 1)) = steadied at *
  have hbelow : (4 * (2 * k + 1) - 1) * unitsPerOne = 8 * (k * unitsPerOne) + 3 * unitsPerOne := by
    rw [show 4 * (2 * k + 1) - 1 = 8 * k + 3 by omega]
    ring
  have habove : (4 * (2 * k + 1) + 1) * unitsPerOne = 8 * (k * unitsPerOne) + 5 * unitsPerOne := by
    ring
  have hmiddle : (2 * k + 1) * unitsPerOne = 2 * (k * unitsPerOne) + unitsPerOne := by ring
  have hnext : (2 * (k + 1) + 1) * unitsPerOne = 2 * (k * unitsPerOne) + 3 * unitsPerOne := by ring
  rw [hbelow] at hlow
  rw [habove] at hhigh
  rw [hmiddle]
  split
  case isTrue hreached =>
    apply Nat.le_antisymm
    · rw [nearestTo_le_iff hone, hnext]
      omega
    · rw [le_nearestTo_iff hone, Nat.mul_assoc, Nat.add_mul, Nat.one_mul]
      omega
  case isFalse hmissed =>
    apply Nat.le_antisymm
    · rw [nearestTo_le_iff hone, hmiddle]
      omega
    · rw [le_nearestTo_iff hone, Nat.mul_assoc]
      omega

/-- What a tie is rounded to on both sides of zero. -/
theorem apply_tie (hplaces : places ≤ maxPlaces) (htie : 2 * k + 1 ≤ 2000 * 10 ^ places) :
    let rounded := if (2 * k + 1) * unitsPerOne ≤ 2 * (steadied places (tie places k)).units then
      k + 1 else k
    (decimals places).apply (tie places k) = .ofDecimal false rounded (-places) ∧
      (decimals places).apply (-tie places k) = -.ofDecimal false rounded (-places) := by
  obtain ⟨hfinite, hsign, hunits⟩ := tie_spec hplaces htie
  have hle : (tie places k).units ≤ 1000 * unitsPerOne := hunits.trans_le (readHalves_le htie)
  have hsteadied := (units_steadied hplaces (isFinite_steadied_of_units_le places hfinite hle)).2
  have hround := (roundPlaces_eq_ofDecimal hplaces hfinite hle).2
  rw [hsign, hunits, roundedPlaces_tie hplaces htie, ← hunits, ← hsteadied] at hround
  exact ⟨hround, (roundPlaces_neg places _).trans (congrArg Binary64.neg hround)⟩

/-- Neighbouring decimals are read as different doubles. -/
theorem ofDecimal_ne_ofDecimal_succ (hplaces : places ≤ maxPlaces)
    (hk : k + 1 ≤ 1000 * 10 ^ places) :
    ofDecimal false k (-places) ≠ .ofDecimal false (k + 1) (-places) := by
  intro heq
  have hunits := (ofDecimal_spec false hplaces (Nat.le_of_succ_le hk)).2.2
  rw [heq, (ofDecimal_spec false hplaces hk).2.2] at hunits
  have hsame := congrArg (roundedPlaces places) hunits
  rw [roundedPlaces_readHalves hplaces hk,
    roundedPlaces_readHalves hplaces (Nat.le_of_succ_le hk)] at hsame
  omega

/-- With five places or more some tie is read too low and stays too low. -/
theorem exists_not_tieGoesAway (hlow : 4 < places) (hplaces : places ≤ maxPlaces) :
    ∃ k, 2 * k + 1 ≤ 200 * 10 ^ places ∧ ¬TieGoesAway places k := by
  rw [maxPlaces] at hplaces
  interval_cases places
  · exact ⟨6400002, by decide, by decide +kernel⟩
  · exact ⟨8000004, by decide, by decide +kernel⟩
  · exact ⟨5000010, by decide, by decide +kernel⟩
  · exact ⟨6250006, by decide, by decide +kernel⟩
  · exact ⟨7812501, by decide, by decide +kernel⟩
  · exact ⟨4882820, by decide, by decide +kernel⟩

/-- Percentages in the middle between two decimals of so many places go away from zero, whatever
    tie it is, exactly with at most four places; with more of them they do so below `2 ^ 22` places.
    Each tie is rounded to one of its neighbours, away from zero exactly if the steadied value
    reaches the tie, and the negative tie is rounded to the negative of what the tie is. -/
theorem forall_tieGoesAway_iff (hplaces : places ≤ maxPlaces) :
    ((∀ k, 2 * k + 1 ≤ 200 * 10 ^ places → TieGoesAway places k) ↔ places ≤ 4) ∧
      ∀ k, 2 * k + 1 ≤ 200 * 10 ^ places →
        (k < 2 ^ 22 → TieGoesAway places k) ∧
          (TieGoesAway places k ↔
            (2 * k + 1) * unitsPerOne ≤ 2 * (steadied places (tie places k)).units) ∧
          (¬TieGoesAway places k →
            (decimals places).apply (tie places k) = .ofDecimal false k (-places) ∧
              (decimals places).apply (-tie places k) = -.ofDecimal false k (-places)) := by
  have hwide {k : Nat} (hk : 2 * k + 1 ≤ 200 * 10 ^ places) : 2 * k + 1 ≤ 2000 * 10 ^ places := by
    omega
  have hiff {k : Nat} (hk : 2 * k + 1 ≤ 200 * 10 ^ places) : TieGoesAway places k ↔
      (2 * k + 1) * unitsPerOne ≤ 2 * (steadied places (tie places k)).units := by
    have hround := apply_tie hplaces (hwide hk)
    constructor
    · intro haway
      by_contra hmissed
      rw [if_neg hmissed] at hround
      exact ofDecimal_ne_ofDecimal_succ hplaces (by omega) (hround.1.symm.trans haway.1)
    · intro hreached
      rwa [if_pos hreached] at hround
  have hfew {k : Nat} (hk : 2 * k + 1 ≤ 200 * 10 ^ places) (hsmall : k < 2 ^ 22) :
      TieGoesAway places k := by
    obtain ⟨hfinite, -, hunits⟩ := tie_spec hplaces (hwide hk)
    have hle := hunits.trans_le (readHalves_le (hwide hk))
    rw [hiff hk, (units_steadied hplaces (isFinite_steadied_of_units_le places hfinite hle)).2,
      hunits]
    exact mul_le_steadiedUnits hplaces (by omega)
  refine ⟨⟨fun hall => ?_, fun hfour k hk => hfew hk ?_⟩, fun k hk => ⟨hfew hk, hiff hk, ?_⟩⟩
  · by_contra hmore
    obtain ⟨k, hk, hnot⟩ := exists_not_tieGoesAway (Nat.not_le.1 hmore) hplaces
    exact hnot (hall k hk)
  · have hten : 10 ^ places ≤ 10 ^ 4 := Nat.pow_le_pow_right (by decide) hfour
    omega
  · intro hnot
    have hround := apply_tie hplaces (hwide hk)
    rwa [if_neg fun hreached => hnot ((hiff hk).2 hreached)] at hround

/-- No double is `1.005`, and the nearest one is below it. It is rounded to `1.01` nevertheless, but
    `64.000025` is rounded to `64.00002`. -/
theorem tieGoesAway_two_places :
    TieGoesAway 2 100 ∧
      (decimals 5).apply (tie 5 6400002) = .ofDecimal false 6400002 (-5) ∧
      ¬∀ k, 2 * k + 1 ≤ 200 * 10 ^ 5 → TieGoesAway 5 k := by
  obtain ⟨hall, heach⟩ := @forall_tieGoesAway_iff 5 (by decide)
  obtain ⟨-, -, hstays⟩ := heach 6400002 (by decide)
  refine ⟨((@forall_tieGoesAway_iff 2 (by decide)).1.2 (by decide)) 100 (by decide), ?_, ?_⟩
  · exact (hstays (by decide +kernel)).1
  · rw [hall]
    decide

end RoundingPolicy

end CourseAdmission
