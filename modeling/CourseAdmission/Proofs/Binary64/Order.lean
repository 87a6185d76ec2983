import CourseAdmission.Proofs.Binary64.Quotient

/-!
The order of doubles, the infinities among them, and which doubles are equal as numbers.
-/

namespace CourseAdmission.Binary64

variable {x y z : Binary64}

/-- Where a number lies, in units; the infinities lie next to the finite numbers. -/
def place : Binary64 → Int
  | .infinite true => -unitLimit
  | .infinite false => unitLimit
  | x => x.signedUnits

theorem place_infinite_true : (infinite true).place = -(unitLimit : Int) := rfl

theorem place_infinite_false : (infinite false).place = (unitLimit : Int) := rfl

theorem place_infinite (negative : Bool) :
    (infinite negative).place = if negative then -(unitLimit : Int) else unitLimit := by
  cases negative <;> rfl

theorem place_of_isFinite (hx : x.isFinite) : x.place = x.signedUnits := by
  obtain ⟨negative, units, _, _, rfl⟩ := exists_eq_finite hx
  rfl

theorem natAbs_place_infinite (negative : Bool) : (infinite negative).place.natAbs = unitLimit := by
  cases negative with
  | true => exact (Int.natAbs_neg (unitLimit : Int)).trans (Int.natAbs_natCast unitLimit)
  | false => exact Int.natAbs_natCast unitLimit

theorem not_isFinite_nan : ¬Binary64.nan.isFinite = true := nofun

theorem not_isFinite_infinite (negative : Bool) : ¬(infinite negative).isFinite = true := nofun

theorem ne_nan_of_isFinite (hx : x.isFinite) : x ≠ .nan := by
  rintro rfl
  cases hx

/-- Only the infinities lie beyond the finite numbers. -/
theorem isFinite_iff_place (hx : x ≠ .nan) : x.isFinite = true ↔ x.place.natAbs < unitLimit := by
  cases x with
  | nan => exact absurd rfl hx
  | infinite negative =>
    rw [natAbs_place_infinite]
    exact ⟨nofun, fun h => absurd h (Nat.lt_irrefl _)⟩
  | finite => exact ⟨fun h => natAbs_signedUnits_lt _, fun _ => rfl⟩

theorem eq_infinite_or_isFinite (hx : x ≠ .nan) :
    (∃ negative, x = .infinite negative) ∨ x.isFinite = true := by
  cases x with
  | nan => exact absurd rfl hx
  | infinite negative => exact .inl ⟨negative, rfl⟩
  | finite => exact .inr rfl

theorem natAbs_place_le (x : Binary64) : x.place.natAbs ≤ unitLimit := by
  by_cases hx : x = .nan
  · rw [hx]
    exact Nat.zero_le _
  · rcases eq_infinite_or_isFinite hx with ⟨negative, rfl⟩ | hfinite
    · exact (natAbs_place_infinite negative).le
    · exact ((isFinite_iff_place hx).1 hfinite).le

theorem le_iff_place : x ≤ y ↔ x ≠ .nan ∧ y ≠ .nan ∧ x.place ≤ y.place := by
  have hlimit := unitLimit_pos
  cases x with
  | nan => exact ⟨nofun, fun h => absurd rfl h.1⟩
  | infinite a =>
    cases y with
    | nan => exact ⟨nofun, fun h => absurd rfl h.2.1⟩
    | infinite b =>
      rw [and_iff_right (by nofun), and_iff_right (by nofun), place_infinite, place_infinite]
      change (a && !b || a == b) = true ↔ _
      generalize unitLimit = limit at hlimit ⊢
      cases a <;> cases b <;> simp
      omega
    | finite b n hgrid hlt =>
      have hn := natAbs_signedUnits_lt (finite b n hgrid hlt)
      rw [and_iff_right (by nofun), and_iff_right (by nofun), place_infinite]
      change (a || false) = true ↔ _ ≤ signedUnits _
      generalize (finite b n hgrid hlt).signedUnits = s, unitLimit = limit at hn ⊢
      cases a <;> simp <;> omega
  | finite a m hgrid hlt =>
    cases y with
    | nan => exact ⟨nofun, fun h => absurd rfl h.2.1⟩
    | infinite b =>
      have hm := natAbs_signedUnits_lt (finite a m hgrid hlt)
      rw [and_iff_right (by nofun), and_iff_right (by nofun), place_infinite]
      change (!b || false) = true ↔ signedUnits _ ≤ _
      generalize (finite a m hgrid hlt).signedUnits = s, unitLimit = limit at hm ⊢
      cases b <;> simp <;> omega
    | finite b n hgrid' hlt' =>
      rw [le_iff rfl rfl]
      exact ⟨fun h => ⟨nofun, nofun, h⟩, fun h => h.2.2⟩

/-- Nothing lies beyond the positive infinity. -/
theorem eq_infinite_of_le (hle : .infinite false ≤ y) : y = .infinite false := by
  obtain ⟨-, hy, hplace⟩ := le_iff_place.1 hle
  rw [place_infinite_false] at hplace
  have hlimit := unitLimit_pos
  rcases eq_infinite_or_isFinite hy with ⟨negative, rfl⟩ | hfinite
  · cases negative with
    | true =>
      rw [place_infinite_true] at hplace
      omega
    | false => rfl
  · rw [isFinite_iff_place hy] at hfinite
    omega

/-- Above a finite number there is only one that is not finite. -/
theorem eq_infinite_of_isFinite_of_le (hx : x.isFinite) (hy : ¬ y.isFinite = true) (hle : x ≤ y) :
    y = .infinite false := by
  obtain ⟨hxNan, hyNan, hplace⟩ := le_iff_place.1 hle
  obtain ⟨negative, rfl⟩ := (eq_infinite_or_isFinite hyNan).resolve_right hy
  cases negative with
  | true =>
    rw [isFinite_iff_place hxNan] at hx
    rw [place_infinite_true] at hplace
    omega
  | false => rfl

theorem le_trans (hxy : x ≤ y) (hyz : y ≤ z) : x ≤ z := by
  rw [le_iff_place] at *
  exact ⟨hxy.1, hyz.2.1, hxy.2.2.trans hyz.2.2⟩

theorem le_total (hx : x ≠ .nan) (hy : y ≠ .nan) : x ≤ y ∨ y ≤ x := by
  rw [le_iff_place, le_iff_place]
  rcases Int.le_total x.place y.place with hle | hle
  · exact .inl ⟨hx, hy, hle⟩
  · exact .inr ⟨hy, hx, hle⟩

theorem beq_iff_place : (x == y) = true ↔ x ≠ .nan ∧ y ≠ .nan ∧ x.place = y.place := by
  have hlimit := unitLimit_pos
  cases x with
  | nan => exact ⟨nofun, fun h => absurd rfl h.1⟩
  | infinite a =>
    cases y with
    | nan => exact ⟨nofun, fun h => absurd rfl h.2.1⟩
    | infinite b =>
      rw [and_iff_right (by nofun), and_iff_right (by nofun), place_infinite, place_infinite]
      change (a == b) = true ↔ _
      generalize unitLimit = limit at hlimit ⊢
      cases a <;> cases b <;> simp <;> omega
    | finite b n hgrid hlt =>
      refine ⟨nofun, fun h => ?_⟩
      have hn := natAbs_signedUnits_lt (finite b n hgrid hlt)
      rw [← place_of_isFinite rfl, ← h.2.2, natAbs_place_infinite] at hn
      exact absurd hn (Nat.lt_irrefl _)
  | finite a m hgrid hlt =>
    cases y with
    | nan => exact ⟨nofun, fun h => absurd rfl h.2.1⟩
    | infinite b =>
      refine ⟨nofun, fun h => ?_⟩
      have hm := natAbs_signedUnits_lt (finite a m hgrid hlt)
      rw [← place_of_isFinite rfl, h.2.2, natAbs_place_infinite] at hm
      exact absurd hm (Nat.lt_irrefl _)
    | finite b n hgrid' hlt' =>
      rw [beq_iff rfl rfl]
      exact ⟨fun h => ⟨nofun, nofun, h⟩, fun h => h.2.2⟩

theorem beq_iff_le_le : (x == y) = true ↔ x ≤ y ∧ y ≤ x := by
  rw [beq_iff_place, le_iff_place, le_iff_place]
  constructor
  · rintro ⟨hx, hy, heq⟩
    exact ⟨⟨hx, hy, heq.le⟩, hy, hx, heq.ge⟩
  · rintro ⟨⟨hx, hy, hle⟩, -, -, hge⟩
    exact ⟨hx, hy, Int.le_antisymm hle hge⟩

/-- Between finite numbers there are only finite ones. -/
theorem isFinite_of_le_of_le (hx : x.isFinite) (hz : z.isFinite) (hxy : x ≤ y) (hyz : y ≤ z) :
    y.isFinite = true := by
  by_contra hy
  rw [eq_infinite_of_isFinite_of_le hx hy hxy] at hyz
  rw [eq_infinite_of_le hyz] at hz
  cases hz

/-- Rounding an exact sum respects the order. -/
theorem roundInt_le_roundInt {a b : Int} (hle : a ≤ b) : roundInt a ≤ roundInt b := by
  have hround {m n : Nat} (hmn : m ≤ n) : roundUnits m 1 ≤ roundUnits n 1 :=
    roundUnits_le_roundUnits Nat.one_pos Nat.one_pos (Nat.mul_le_mul_right 1 hmn)
  unfold roundInt
  split
  case isTrue ha =>
    split
    case isTrue hb =>
      have := hround (show b.natAbs ≤ a.natAbs by omega)
      omega
    case isFalse hb => omega
  case isFalse ha =>
    rw [if_neg (by omega)]
    exact_mod_cast hround (show a.natAbs ≤ b.natAbs by omega)

/-- Equal as numbers, or both undefined. -/
def Alike (x y : Binary64) : Prop := (x = .nan ∧ y = .nan) ∨ (x == y) = true

instance (x y : Binary64) : Decidable (Alike x y) := inferInstanceAs (Decidable (_ ∨ _))

theorem Alike.refl (x : Binary64) : Alike x x := by
  by_cases hx : x = .nan
  · exact .inl ⟨hx, hx⟩
  · exact .inr (beq_iff_place.2 ⟨hx, hx, rfl⟩)

theorem Alike.isFinite_eq (h : Alike x y) : x.isFinite = y.isFinite := by
  rcases h with ⟨rfl, rfl⟩ | hsame
  · rfl
  · obtain ⟨hx, hy, hplace⟩ := beq_iff_place.1 hsame
    rw [Bool.eq_iff_iff, isFinite_iff_place hx, isFinite_iff_place hy, hplace]

theorem Alike.le_iff (h : Alike x y) : z ≤ x ↔ z ≤ y := by
  rcases h with ⟨rfl, rfl⟩ | hsame
  · rfl
  · obtain ⟨hle, hge⟩ := beq_iff_le_le.1 hsame
    exact ⟨fun hz => le_trans hz hle, fun hz => le_trans hz hge⟩

theorem place_ofQuotient (negative : Bool) (n d : Nat) :
    ofQuotient negative n d ≠ .nan ∧ (ofQuotient negative n d).place =
      if negative then -((min (roundUnits n d) unitLimit : Nat) : Int)
      else (min (roundUnits n d) unitLimit : Nat) := by
  unfold ofQuotient
  split
  case isTrue hlt =>
    rw [Nat.min_eq_left hlt.le]
    exact ⟨by simp, by cases negative <;> rfl⟩
  case isFalse hge =>
    rw [Nat.min_eq_right (Nat.not_lt.1 hge)]
    exact ⟨by simp, by cases negative <;> rfl⟩

/-- Only zeros are alike without being the same. -/
theorem Alike.eq_or_zero (h : Alike x y) :
    x = y ∨ (x.isFinite ∧ x.units = 0) ∧ y.isFinite ∧ y.units = 0 := by
  rcases h with ⟨rfl, rfl⟩ | hsame
  · exact .inl rfl
  cases x with
  | nan => cases hsame
  | infinite a =>
    cases y with
    | nan => cases hsame
    | infinite b => exact .inl (congrArg infinite (beq_iff_eq.1 hsame))
    | finite => cases hsame
  | finite a m hgrid hlt =>
    cases y with
    | nan => cases hsame
    | infinite => cases hsame
    | finite b n hgrid' hlt' =>
      rw [beq_iff rfl rfl, signedUnits_eq, signedUnits_eq] at hsame
      change (if a then -(m : Int) else m) = if b then -(n : Int) else n at hsame
      by_cases hzero : m = 0
      · subst hzero
        have hn : n = 0 := by split at hsame <;> split at hsame <;> omega
        exact .inr ⟨⟨rfl, rfl⟩, rfl, hn⟩
      · left
        have hsign : a = b := by cases a <;> cases b <;> simp at hsame ⊢ <;> omega
        have hunits : m = n := by split at hsame <;> split at hsame <;> omega
        subst hsign hunits
        rfl

theorem alike_ofQuotient_zero (a b : Bool) (d : Nat) :
    Alike (ofQuotient a 0 d) (ofQuotient b 0 d) := by
  have hplace (negative : Bool) : (ofQuotient negative 0 d).place = 0 := by
    rw [(place_ofQuotient negative 0 d).2, roundUnits_zero, Nat.zero_min]
    simp
  exact .inr (beq_iff_place.2 ⟨(place_ofQuotient a 0 d).1, (place_ofQuotient b 0 d).1,
    (hplace a).trans (hplace b).symm⟩)

/-- Numbers that are alike have quotients that are alike, whatever they are divided by. -/
theorem Alike.div (h : Alike x y) (c : Binary64) : Alike (x / c) (y / c) := by
  obtain rfl | ⟨⟨hx, hm⟩, hy, hn⟩ := h.eq_or_zero
  · exact .refl _
  obtain ⟨a, m, _, _, rfl⟩ := exists_eq_finite hx
  obtain ⟨b, n, _, _, rfl⟩ := exists_eq_finite hy
  change m = 0 at hm
  change n = 0 at hn
  subst hm hn
  change Alike (Binary64.div _ _) (Binary64.div _ _)
  cases c with
  | nan => exact .refl _
  | infinite s =>
    simp only [Binary64.div]
    exact alike_ofQuotient_zero (a != s) (b != s) 1
  | finite s k =>
    by_cases hk : k = 0
    · simp only [Binary64.div, if_pos hk, if_true]
      exact .refl _
    · simp only [Binary64.div, if_neg hk, Nat.zero_mul]
      exact alike_ofQuotient_zero (a != s) (b != s) k

end CourseAdmission.Binary64
