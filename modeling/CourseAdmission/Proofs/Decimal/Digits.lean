import Mathlib.Tactic.IntervalCases
import CourseAdmission.Decimal.Literal

/-!
Rows of decimal digits and the numbers that they stand for.
-/

namespace CourseAdmission.Decimal

/-- All of these characters are decimal digits. -/
def Digits (cs : List Char) : Prop := ∀ c ∈ cs, c.isDigit = true

theorem digits_toDigits (n : Nat) : Digits (Nat.toDigits 10 n) := fun _ hc =>
  Nat.isDigit_of_mem_toDigits (by decide) (by decide) hc

theorem digits_zeros (n : Nat) : Digits (List.replicate n '0') := by
  intro c hc
  rw [List.eq_of_mem_replicate hc]
  rfl

theorem Digits.append {cs ds : List Char} (hcs : Digits cs) (hds : Digits ds) :
    Digits (cs ++ ds) := fun c hc => (List.mem_append.1 hc).elim (hcs c) (hds c)

theorem Digits.take {cs : List Char} (hcs : Digits cs) (n : Nat) : Digits (cs.take n) :=
  fun c hc => hcs c (List.mem_of_mem_take hc)

theorem Digits.drop {cs : List Char} (hcs : Digits cs) (n : Nat) : Digits (cs.drop n) :=
  fun c hc => hcs c (List.mem_of_mem_drop hc)

theorem ofDigits_eq (cs : List Char) : ofDigits cs = Nat.ofDigitChars 10 cs 0 := by
  unfold ofDigits Nat.ofDigitChars
  congr 1
  funext n c
  rw [Nat.mul_comm]

@[simp]
theorem ofDigits_toDigits (n : Nat) : ofDigits (Nat.toDigits 10 n) = n := by
  rw [ofDigits_eq, Nat.ofDigitChars_ten_toDigits]

/-- No zero leads the digits of a positive number. -/
theorem toDigits_of_pos {n : Nat} (hn : 0 < n) :
    ∃ c cs, Nat.toDigits 10 n = c :: cs ∧ c ≠ '0' := by
  induction n using Nat.strongRecOn with
  | ind n ih =>
    by_cases hsmall : n < 10
    · refine ⟨n.digitChar, [], Nat.toDigits_of_lt_base hsmall, ?_⟩
      interval_cases n <;> decide
    · obtain ⟨c, cs, htop, hc⟩ := ih (n / 10) (by omega) (by omega)
      rw [Nat.toDigits_of_base_le (by decide) (by omega), htop]
      exact ⟨c, cs ++ [(n % 10).digitChar], rfl, hc⟩

/-- A row of digits that no zero leads, unless it is the only one. -/
def Leading (cs : List Char) : Prop :=
  cs = ['0'] ∨ ∃ c rest, cs = c :: rest ∧ c ≠ '0' ∧ Digits (c :: rest)

theorem leading_toDigits (n : Nat) : Leading (Nat.toDigits 10 n) := by
  rcases Nat.eq_zero_or_pos n with rfl | hn
  · exact .inl rfl
  · obtain ⟨c, cs, hdigits, hc⟩ := toDigits_of_pos hn
    exact .inr ⟨c, cs, hdigits, hc, hdigits ▸ digits_toDigits n⟩

theorem Leading.append {cs ds : List Char} (hcs : Leading cs) (hne : cs ≠ ['0']) (hds : Digits ds) :
    Leading (cs ++ ds) := by
  rcases hcs with hzero | ⟨c, rest, rfl, hc, hrow⟩
  · exact absurd hzero hne
  · exact .inr ⟨c, rest ++ ds, rfl, hc, hrow.append hds⟩

theorem Leading.take {cs : List Char} (hcs : Leading cs) {n : Nat} (hn : 0 < n) :
    Leading (cs.take n) := by
  obtain ⟨k, rfl⟩ : ∃ k, n = k + 1 := ⟨n - 1, by omega⟩
  rcases hcs with rfl | ⟨c, rest, rfl, hc, hrow⟩
  · exact .inl (by simp)
  · exact .inr ⟨c, rest.take k, rfl, hc, hrow.take (k + 1)⟩

/-- The digits of a number behind zeros. -/
def paddedDigits (width n : Nat) : List Char :=
  List.replicate (width - (Nat.toDigits 10 n).length) '0' ++ Nat.toDigits 10 n

theorem digits_paddedDigits (width n : Nat) : Digits (paddedDigits width n) :=
  (digits_zeros _).append (digits_toDigits n)

theorem paddedDigits_ne_nil (width n : Nat) : paddedDigits width n ≠ [] := by
  simp [paddedDigits]

theorem length_paddedDigits {width n : Nat} (hwidth : 0 < width) (hn : n < 10 ^ width) :
    (paddedDigits width n).length = width := by
  have := (Nat.length_toDigits_le_iff (b := 10) (n := n) (by decide) hwidth).2 hn
  rw [paddedDigits, List.length_append, List.length_replicate]
  omega

theorem ofDigits_paddedDigits (width n : Nat) : ofDigits (paddedDigits width n) = n := by
  rw [ofDigits_eq, paddedDigits, Nat.ofDigitChars_append, Nat.ofDigitChars_replicate_zero,
    Nat.mul_zero, Nat.ofDigitChars_ten_toDigits]

theorem ofDigits_append (cs ds : List Char) :
    ofDigits (cs ++ ds) = ofDigits cs * 10 ^ ds.length + ofDigits ds := by
  rw [ofDigits_eq, Nat.ofDigitChars_append, Nat.ofDigitChars_eq_ofDigitChars_zero, Nat.mul_comm,
    ← ofDigits_eq, ← ofDigits_eq]

end CourseAdmission.Decimal
