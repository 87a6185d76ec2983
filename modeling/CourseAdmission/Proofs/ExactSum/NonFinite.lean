import CourseAdmission.Proofs.ExactSum.Permuted
import Mathlib.Data.List.Induction

/-!
What values that are no finite numbers make of a sum.

The finite values do not matter then, also where they overflow: an undefined value makes the sum
undefined, and so do both infinities together; otherwise the sum is the infinity that occurs.
-/

namespace CourseAdmission.ExactSum

open Binary64

/-- What the values that are no finite numbers add up to; to a finite number if there are none. -/
def AddsUpTo (values : List Binary64) : Binary64 → Prop
  | .nan => .nan ∈ values ∨ ∀ negative, .infinite negative ∈ values
  | .infinite negative =>
    .infinite negative ∈ values ∧ .nan ∉ values ∧ .infinite (!negative) ∉ values
  | .finite .. => ∀ v ∈ values, v.isFinite

variable {values : List Binary64} {sum value : Binary64}

/-- The values add up to at most one thing that is no finite number. -/
theorem AddsUpTo.eq_of_not_isFinite {x y : Binary64} (hx : AddsUpTo values x)
    (hy : AddsUpTo values y) (hfinite : ¬y.isFinite = true) : x = y := by
  cases y with
  | finite => exact absurd rfl hfinite
  | nan =>
    cases x with
    | nan => rfl
    | infinite a =>
      obtain ⟨-, hnan, hother⟩ := hx
      exact (hy.elim hnan fun hboth => hother (hboth _)).elim
    | finite =>
      rcases hy with hnan | hboth
      · cases hx _ hnan
      · cases hx _ (hboth true)
  | infinite b =>
    obtain ⟨hmem, hnan, hother⟩ := hy
    cases x with
    | nan => exact (hx.elim hnan fun hboth => hother (hboth _)).elim
    | infinite a =>
      by_contra hne
      have hflip : a = !b := Bool.eq_not_iff.2 fun h => hne (h ▸ rfl)
      exact hother (hflip ▸ hx.1)
    | finite => cases hx _ hmem

theorem AddsUpTo.of_forall_isFinite (hsum : sum.isFinite) (hvalues : ∀ v ∈ values, v.isFinite) :
    AddsUpTo values sum := by
  cases sum with
  | nan => cases hsum
  | infinite => cases hsum
  | finite => exact hvalues

/-- A finite value changes nothing. -/
theorem AddsUpTo.append_finite (h : AddsUpTo values sum) (hvalue : value.isFinite) :
    AddsUpTo (values ++ [value]) sum := by
  have hmem {v : Binary64} (hv : ¬v.isFinite = true) : v ∈ values ++ [value] ↔ v ∈ values := by
    rw [List.mem_append, List.mem_singleton]
    refine or_iff_left ?_
    rintro rfl
    exact hv hvalue
  cases sum with
  | nan => simpa only [AddsUpTo, hmem not_isFinite_nan, hmem (not_isFinite_infinite _)] using h
  | infinite negative =>
    simpa only [AddsUpTo, hmem not_isFinite_nan, hmem (not_isFinite_infinite _)] using h
  | finite =>
    apply AddsUpTo.of_forall_isFinite rfl
    intro v hv
    rcases List.mem_append.1 hv with hv | hv
    · exact h v hv
    · rw [List.mem_singleton.1 hv, hvalue]

theorem AddsUpTo.append_nan (values : List Binary64) : AddsUpTo (values ++ [.nan]) .nan :=
  .inl (by simp)

theorem AddsUpTo.append_infinite {negative : Bool} (h : AddsUpTo values sum) :
    AddsUpTo (values ++ [.infinite negative]) (sum + .infinite negative) := by
  change AddsUpTo _ (Binary64.add _ _)
  cases sum with
  | nan => exact h.imp (by simp +contextual) fun hboth b => by simp [hboth b]
  | infinite a =>
    obtain ⟨hmem, hnan, hother⟩ := h
    rw [Binary64.add]
    split
    case isTrue heq =>
      subst heq
      exact ⟨by simp, by simpa using hnan, by simpa using hother⟩
    case isFalse hne =>
      refine .inr fun b => ?_
      by_cases hb : b = a
      · simp [hb, hmem]
      · have hlast : b = negative :=
          (Bool.eq_not_iff.2 hb).trans (Bool.eq_not_iff.2 (Ne.symm hne)).symm
        simp [hlast]
  | finite =>
    have hnot {v : Binary64} (hv : ¬v.isFinite = true) : v ∉ values := fun hmem => hv (h v hmem)
    rw [Binary64.add]
    exact ⟨by simp, by simpa using hnot not_isFinite_nan,
      by simpa using hnot (not_isFinite_infinite _)⟩

theorem nonFiniteSum_append (values : List Binary64) (value : Binary64) :
    nonFiniteSum (values ++ [value]) =
      if value.isFinite then nonFiniteSum values else nonFiniteSum values + value := by
  rw [nonFiniteSum, nonFiniteSum, List.filter_append, List.foldl_append]
  by_cases hvalue : value.isFinite = true <;> simp [hvalue]

/-- The values that are no finite numbers are added up one by one. -/
theorem addsUpTo_nonFiniteSum (values : List Binary64) :
    AddsUpTo values (nonFiniteSum values) := by
  induction values using List.reverseRecOn with
  | nil =>
    have hzero : (nonFiniteSum []).isFinite = true := by decide +kernel
    generalize nonFiniteSum [] = sum at hzero ⊢
    exact .of_forall_isFinite hzero (by simp)
  | append_singleton values value ih =>
    rw [nonFiniteSum_append]
    cases value with
    | finite => exact ih.append_finite rfl
    | nan =>
      rw [if_neg not_isFinite_nan, add_nan]
      exact .append_nan values
    | infinite negative =>
      rw [if_neg (not_isFinite_infinite negative)]
      exact ih.append_infinite

theorem nonFiniteSum_eq_iff (hsum : ¬sum.isFinite = true) :
    nonFiniteSum values = sum ↔ AddsUpTo values sum := by
  refine ⟨fun heq => heq ▸ addsUpTo_nonFiniteSum values, fun h => ?_⟩
  exact (addsUpTo_nonFiniteSum values).eq_of_not_isFinite h hsum

theorem not_isFinite_nonFiniteSum (hvalues : ∃ v ∈ values, ¬v.isFinite = true) :
    ¬(nonFiniteSum values).isFinite = true := by
  obtain ⟨v, hv, hfinite⟩ := hvalues
  have hsum := addsUpTo_nonFiniteSum values
  cases hnonFinite : nonFiniteSum values with
  | nan => exact not_isFinite_nan
  | infinite negative => exact not_isFinite_infinite negative
  | finite =>
    rw [hnonFinite] at hsum
    exact absurd (hsum v hv) hfinite

/-- Where some value is no finite number, the total is what these values add up to. -/
theorem total_ofList_of_nonFinite (hvalues : ∃ v ∈ values, ¬v.isFinite = true) :
    (ofList values).total = nonFiniteSum values := by
  rw [total_ofList, if_neg]
  intro hzero
  cases hsum : nonFiniteSum values with
  | nan =>
    rw [hsum] at hzero
    cases hzero
  | infinite =>
    rw [hsum, zero_eq] at hzero
    cases hzero
  | finite => exact not_isFinite_nonFiniteSum hvalues (by rw [hsum]; rfl)

end CourseAdmission.ExactSum
