import Mathlib.Tactic.Ring
import CourseAdmission.Report.Uuid
import CourseAdmission.Proofs.Json.Quoted

/-!
Identifiers are read back from their texts.
-/

namespace CourseAdmission.Uuid

open Json (hexDigit)
open Json.Token (hexDigit?)

/-- The values of the last `count` hexadecimal digits of a number. -/
def hexValues (count n : Nat) : List Nat :=
  ((List.range count).map fun i => n >>> (4 * i) % 16).reverse

theorem mapM_hexDigit? (count n : Nat) :
    (hexDigits count n).mapM hexDigit? = some (hexValues count n) := by
  have hdigits (is : List Nat) : (is.map fun i => hexDigit (n >>> (4 * i) % 16)).mapM hexDigit? =
      some (is.map fun i => n >>> (4 * i) % 16) := by
    induction is with
    | nil => rfl
    | cons i is ih =>
      have hlt : n >>> (4 * i) % 16 < 16 := Nat.mod_lt _ (by decide)
      simp [List.mapM_cons, Json.Token.hexDigit?_hexDigit hlt, ih]
  rw [hexDigits, hexValues, ← List.map_reverse, ← List.map_reverse, hdigits]

/-- The value of the last digits of a number, behind those of another. -/
theorem foldl_hexValues (count n init : Nat) :
    (hexValues count n).foldl (fun n d => n * 16 + d) init =
      init * 16 ^ count + n % 16 ^ count := by
  induction count generalizing init with
  | zero => simp [hexValues, Nat.mod_one]
  | succ count ih =>
    have hsplit : hexValues (count + 1) n = (n >>> (4 * count) % 16) :: hexValues count n := by
      simp [hexValues, List.range_succ]
    have hshift : n >>> (4 * count) = n / 16 ^ count := by
      rw [Nat.shiftRight_eq_div_pow, Nat.pow_mul]
    rw [hsplit, List.foldl_cons, ih, hshift, Nat.pow_succ, Nat.mod_mul]
    ring

theorem length_hexDigits (count n : Nat) : (hexDigits count n).length = count := by
  simp [hexDigits]

theorem ofDigits?_hexDigits (u : Uuid) : ofDigits? (hexDigits 32 u.bits.toNat) = some u := by
  have hvalue := foldl_hexValues 32 u.bits.toNat 0
  have hbits : u.bits.toNat < 16 ^ 32 := u.bits.isLt
  rw [Nat.zero_mul, Nat.zero_add, Nat.mod_eq_of_lt hbits] at hvalue
  have hlength : (hexValues 32 u.bits.toNat).length = 32 := by simp [hexValues]
  simp [ofDigits?, mapM_hexDigit?, hlength, hvalue]

/-- A row of digits with dashes between its groups. -/
def dashed (widths : List Nat) (cs : List Char) : List Char := ['-'].intercalate (cut widths cs)

theorem dashed_cons_cons (width next : Nat) (widths : List Nat) (cs : List Char) :
    dashed (width :: next :: widths) cs =
      cs.take width ++ '-' :: dashed (next :: widths) (cs.drop width) := by
  simp [dashed, cut, List.intercalate_cons_cons]

theorem length_dashed (width : Nat) (widths : List Nat) {cs : List Char}
    (hcs : cs.length = (width :: widths).sum) :
    (dashed (width :: widths) cs).length = cs.length + widths.length := by
  induction widths generalizing width cs with
  | nil => simp_all [dashed, cut]
  | cons next widths ih =>
    rw [List.sum_cons] at hcs
    have hdrop : (cs.drop width).length = (next :: widths).sum := by simp [hcs]
    rw [dashed_cons_cons, List.length_append, List.length_cons, ih next hdrop, List.length_take,
      List.length_drop, List.length_cons]
    omega

theorem withoutDashes?_dashed (width : Nat) (widths : List Nat) {cs : List Char}
    (hcs : cs.length = (width :: widths).sum) :
    withoutDashes? (width :: widths) (dashed (width :: widths) cs) = some cs := by
  induction widths generalizing width cs with
  | nil =>
    have hwidth : cs.length = width := by simpa using hcs
    have htake : cs.take width = cs := List.take_of_length_le (by omega)
    simp [dashed, cut, withoutDashes?, htake, hwidth]
  | cons next widths ih =>
    rw [List.sum_cons] at hcs
    have htake : (cs.take width).length = width := by
      rw [List.length_take]
      omega
    have hdrop : (cs.drop width).length = (next :: widths).sum := by simp [hcs]
    rw [dashed_cons_cons, withoutDashes?, List.drop_left' htake, List.take_left' htake]
    · simp [ih next hdrop]
    · nofun

/-- An identifier is read back from its text. -/
theorem ofText?_toText (u : Uuid) : ofText? u.toText = some u := by
  have htext : u.toText.toList = dashed groups (hexDigits 32 u.bits.toNat) := by
    simp [toText, dashed, Function.comp_def]
  have hlength : u.toText.toList.length = 36 := by
    rw [htext, groups, length_dashed _ _ (length_hexDigits 32 _), length_hexDigits]
    rfl
  unfold ofText?
  dsimp only
  rw [hlength, if_neg (by decide), if_pos rfl, ofGroups?, htext, groups,
    withoutDashes?_dashed _ _ (length_hexDigits 32 _)]
  exact ofDigits?_hexDigits u

end CourseAdmission.Uuid
