import Mathlib.Tactic.IntervalCases
import CourseAdmission.Json.Writer
import CourseAdmission.Json.Token

/-!
Quoted texts are scanned as the texts that they quote.
-/

namespace CourseAdmission.Json.Token

/-- A quoted text in progress of which these characters have been read, the last one first. -/
def Quoted.ofChars (chars : List Char) : Quoted := ⟨.plain, chars, none, false⟩

theorem hexDigit?_hexDigit {n : Nat} (hn : n < 16) : hexDigit? (hexDigit n) = some n := by
  interval_cases n <;> decide

/-- An escape of four digits is scanned as the character of that number. -/
theorem scan_hex {c : Char} (hc : c.toNat < 0x20) (chars rest : List Char) :
    scan (.quoted (.ofChars chars)) ('\\' :: 'u' :: '0' :: '0' :: hexDigit (c.toNat / 16) ::
        hexDigit (c.toNat % 16) :: rest) =
      scan (.quoted (.ofChars (c :: chars))) rest := by
  have htop := hexDigit?_hexDigit (n := c.toNat / 16) (by omega)
  have hlow := hexDigit?_hexDigit (n := c.toNat % 16) (by omega)
  have hzero : hexDigit? '0' = some 0 := rfl
  have hvalue : c.toNat / 16 * 16 + c.toNat % 16 = c.toNat := by omega
  have hpush : Quoted.pushUnit ⟨.hex 1 (c.toNat / 16), chars, none, false⟩ c.toNat =
      .ofChars (c :: chars) := by
    unfold Quoted.pushUnit
    rw [if_neg (by omega), if_neg (by omega), Char.ofNat_toNat]
    rfl
  simp [scan, step, stepQuoted, Quoted.ofChars, hzero, htop, hlow, hvalue, hpush]

/-- An escaped character is scanned as the character. -/
theorem scan_escape (c : Char) (chars rest : List Char) :
    scan (.quoted (.ofChars chars)) (escape c ++ rest) =
      scan (.quoted (.ofChars (c :: chars))) rest := by
  unfold escape
  split
  case h_8 hquote hbackslash _ _ _ _ _ =>
    split
    case isTrue hcontrol => exact scan_hex hcontrol chars rest
    case isFalse hplain =>
      have hother : c ≠ '"' ∧ c ≠ '\\' := ⟨hquote, hbackslash⟩
      simp [scan, step, stepQuoted, Quoted.ofChars, Quoted.push, hother, hplain]
  all_goals rfl

theorem scan_escapes (cs chars rest : List Char) :
    scan (.quoted (.ofChars chars)) (cs.flatMap escape ++ rest) =
      scan (.quoted (.ofChars (cs.reverse ++ chars))) rest := by
  induction cs generalizing chars with
  | nil => rfl
  | cons c cs ih => simp [scan_escape, ih]

/-- A quoted text is scanned as the text. -/
theorem scan_quote (s : String) (rest : List Char) :
    scan .between ((quote s).toList ++ rest) = .text (.whole s) :: scan .between rest := by
  have hquote : (quote s).toList ++ rest = '"' :: (s.toList.flatMap escape ++ '"' :: rest) := by
    simp [quote]
  rw [hquote, scan]
  change scan (.quoted (.ofChars [])) _ = _
  rw [scan_escapes s.toList []]
  simp [scan, step, stepQuoted, Quoted.ofChars, Quoted.finish]

end CourseAdmission.Json.Token
