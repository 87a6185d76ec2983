import CourseAdmission.Time.Instant
import CourseAdmission.Proofs.Decimal.Digits

/-!
Points in time are read back from their texts.
-/

namespace CourseAdmission.Instant

open Calendar Decimal

theorem isBlank_of_isDigit {c : Char} (hc : c.isDigit = true) : Text.isBlank c = false := by
  have hnone : (Text.blanks.all fun blank => !blank.isDigit) = true := by decide
  rw [Text.isBlank, List.contains_eq_mem, decide_eq_false_iff_not]
  intro hmem
  have hblank := List.all_eq_true.1 hnone c hmem
  rw [hc] at hblank
  cases hblank

theorem dropBlanks_of_not {c : Char} (hc : Text.isBlank c = false) (cs : List Char) :
    Text.dropBlanks (c :: cs) = c :: cs := by
  rw [Text.dropBlanks, List.dropWhile_cons_of_neg (by simp [hc])]

theorem dropBlanks_digits {cs : List Char} (hdigits : Digits cs) (hne : cs ≠ [])
    (rest : List Char) : Text.dropBlanks (cs ++ rest) = cs ++ rest := by
  obtain ⟨c, cs, rfl⟩ := List.exists_cons_of_ne_nil hne
  exact dropBlanks_of_not (isBlank_of_isDigit (hdigits c (by simp))) _

theorem takeWhile_digits {cs : List Char} (hdigits : Digits cs) {c : Char} (hc : c.isDigit = false)
    (rest : List Char) : (cs ++ c :: rest).takeWhile Char.isDigit = cs := by
  rw [List.takeWhile_append_of_pos hdigits, List.takeWhile_cons_of_neg (by simp [hc]),
    List.append_nil]

/-- A row of digits is read as a number, up to the first character that is none. -/
theorem number?_digits {cs : List Char} {width : Nat} (hdigits : Digits cs) (hne : cs ≠ [])
    (hwidth : cs.length ≤ width) {c : Char} (hc : c.isDigit = false) (rest : List Char) :
    number? width (cs ++ c :: rest) = some (ofDigits cs, c :: rest) := by
  unfold number?
  dsimp only
  rw [dropBlanks_digits hdigits hne, takeWhile_digits hdigits hc, List.take_of_length_le hwidth,
    List.drop_left, if_neg (by simpa using hne)]

theorem padded_toList (width n : Nat) : (padded width n).toList = paddedDigits width n := by
  have hlist : (toString n).toList = Nat.toDigits 10 n := by simp
  have hlength : (toString n).length = (Nat.toDigits 10 n).length := by
    rw [← String.length_toList, hlist]
  unfold padded
  dsimp only
  rw [String.toList_append, hlist, hlength]
  simp [zeros, paddedDigits]

theorem number?_paddedDigits {width n : Nat} {c : Char} (hwidth : 0 < width) (hn : n < 10 ^ width)
    (hc : c.isDigit = false) (rest : List Char) :
    number? width (paddedDigits width n ++ c :: rest) = some (n, c :: rest) := by
  rw [number?_digits (digits_paddedDigits width n) (paddedDigits_ne_nil width n)
    (length_paddedDigits hwidth hn).le hc, ofDigits_paddedDigits]

/-- Behind a sign, a year may have any number of digits. -/
theorem signed_digits {cs : List Char} (hdigits : Digits cs) (hne : cs ≠ []) (rest : List Char)
    (year : Nat → Int) :
    year?.signed (cs ++ '-' :: rest) year = some (year (ofDigits cs), '-' :: rest) := by
  have hhead : (((cs ++ '-' :: rest).head?.map Char.isDigit).getD false) = true := by
    obtain ⟨c, cs, rfl⟩ := List.exists_cons_of_ne_nil hne
    simpa using hdigits c (by simp)
  rw [year?.signed, if_pos hhead, number?_digits hdigits hne (by simp) rfl]
  rfl

theorem year?_digits {cs : List Char} (hdigits : Digits cs) (hne : cs ≠ [])
    (hlength : cs.length ≤ 4) (rest : List Char) :
    year? (cs ++ '-' :: rest) = some ((ofDigits cs : Int), '-' :: rest) := by
  have hnumber := number?_digits hdigits hne hlength (c := '-') rfl rest
  unfold year?
  rw [dropBlanks_digits hdigits hne]
  obtain ⟨c, cs, rfl⟩ := List.exists_cons_of_ne_nil hne
  have hc := hdigits c (by simp)
  split
  case h_1 heq =>
    cases heq
    cases hc
  case h_2 heq =>
    cases heq
    cases hc
  case h_3 => rw [hnumber, Option.map_some]

/-- A year is read back from its text. -/
theorem year?_yearText (year : Int) (rest : List Char) :
    year? ((yearText year).toList ++ '-' :: rest) = some (year, '-' :: rest) := by
  have hdigits := digits_paddedDigits 4 year.natAbs
  have hne := paddedDigits_ne_nil 4 year.natAbs
  unfold yearText
  split
  case isTrue hshort =>
    rw [padded_toList, year?_digits hdigits hne
      (length_paddedDigits (by decide) (by omega)).le, ofDigits_paddedDigits]
    congr 2
    omega
  case isFalse hlong =>
    rw [String.toList_append, padded_toList, List.append_assoc]
    by_cases hneg : year < 0
    · rw [if_pos hneg]
      change year?.signed (paddedDigits 4 year.natAbs ++ '-' :: rest) (fun n => -(n : Int)) = _
      rw [signed_digits hdigits hne, ofDigits_paddedDigits]
      congr 2
      omega
    · rw [if_neg hneg]
      change year?.signed (paddedDigits 4 year.natAbs ++ '-' :: rest) (fun n => (n : Int)) = _
      rw [signed_digits hdigits hne, ofDigits_paddedDigits]
      congr 2
      omega

theorem after?_cons {c : Char} (hc : Text.isBlank c = false) (rest : List Char) :
    after? c (c :: rest) = some rest := by
  rw [after?, dropBlanks_of_not hc]
  exact if_pos rfl

/-- A fraction of up to nine digits is read in nanoseconds. -/
theorem fraction?_paddedDigits {places n : Nat} (hplaces : 0 < places ∧ places ≤ 9)
    (hn : n < 10 ^ places) :
    fraction? ('.' :: (paddedDigits places n ++ ['Z'])) = some (n * 10 ^ (9 - places), ['Z']) := by
  have hlength := length_paddedDigits hplaces.1 hn
  have htake := takeWhile_digits (digits_paddedDigits places n) (c := 'Z') rfl []
  unfold fraction?
  simp only [htake]
  rw [List.take_of_length_le (by omega), if_neg (by simpa using paddedDigits_ne_nil places n),
    List.drop_left, hlength, ofDigits_eq, Nat.ofDigitChars_append, ← ofDigits_eq,
    ofDigits_paddedDigits, Nat.ofDigitChars_replicate_zero, Nat.mul_comm]

/-- The fraction of a second is read back from its text. -/
theorem fraction?_fractionText (t : Instant) :
    fraction? (t.fractionText.toList ++ ['Z']) = some (t.nanosecond, ['Z']) := by
  have hbound : t.nanosecond < nanosPerSecond := t.validTime.2.2.2
  unfold nanosPerSecond at hbound
  have hpoint (places n : Nat) : ("." ++ padded places n).toList ++ ['Z'] =
      '.' :: (paddedDigits places n ++ ['Z']) := by
    rw [String.toList_append, padded_toList]
    rfl
  unfold fractionText
  split
  case isTrue hnone => rw [hnone]; rfl
  split
  case isTrue hmillis =>
    rw [hpoint, fraction?_paddedDigits (by decide) (by omega)]
    congr 2
    omega
  split
  case isTrue hmicros =>
    rw [hpoint, fraction?_paddedDigits (by decide) (by omega)]
    congr 2
    omega
  rw [hpoint, fraction?_paddedDigits (by decide) (by omega)]
  simp

theorem fractionText_eq_cons (t : Instant) :
    ∃ c rest, t.fractionText.toList ++ ['Z'] = c :: rest ∧ c.isDigit = false := by
  unfold fractionText
  split
  · exact ⟨'Z', [], rfl, rfl⟩
  · split
    · exact ⟨'.', _, by rw [String.toList_append]; rfl, rfl⟩
    · split <;> exact ⟨'.', _, by rw [String.toList_append]; rfl, rfl⟩

theorem ofLocal?_eq (t : Instant) :
    ofLocal? t.date t.hour t.minute t.second t.nanosecond 0 = some t := by
  obtain ⟨date, hour, minute, second, nanosecond, hdate, htime⟩ := t
  have hmove : moveBack date (hour * 60 + minute) 0 = (date, hour * 60 + minute) := by
    unfold moveBack
    dsimp only
    rw [if_neg (by omega), if_pos (by omega)]
    congr 1
  have hhour : (hour * 60 + minute) / 60 = hour := by omega
  have hminute : (hour * 60 + minute) % 60 = minute := by omega
  unfold ofLocal?
  dsimp only
  rw [if_pos ⟨hdate, htime.1, htime.2.1⟩, hmove]
  simp [hhour, hminute, hdate, htime]

/-- A point in time is read back from its text for universal time. -/
theorem ofText?_toText (t : Instant) : ofText? (t.toText "Z") = some t := by
  obtain ⟨hmonthLow, hmonth, hdayLow, hday⟩ := t.validDate.2.2
  obtain ⟨hhour, hminute, hsecond, -⟩ := t.validTime
  have hmonthDays : daysInMonth t.date.year t.date.month ≤ 31 := by
    unfold daysInMonth
    split
    · split <;> omega
    · split <;> omega
  have htext : (t.toText "Z").toList = (yearText t.date.year).toList ++ '-' ::
      (paddedDigits 2 t.date.month ++ '-' :: (paddedDigits 2 t.date.day ++ 'T' ::
        (paddedDigits 2 t.hour ++ ':' :: (paddedDigits 2 t.minute ++ ':' ::
          (paddedDigits 2 t.second ++ (t.fractionText.toList ++ ['Z'])))))) := by
    simp [toText, dateText, timeText, padded_toList]
  obtain ⟨c, rest, hrest, hc⟩ := fractionText_eq_cons t
  have hfraction := fraction?_fractionText t
  have hdash (rest : List Char) : after? '-' ('-' :: rest) = some rest :=
    after?_cons (by decide) rest
  have hcolon (rest : List Char) : after? ':' (':' :: rest) = some rest :=
    after?_cons (by decide) rest
  have hnumber {n : Nat} {c : Char} (hn : n < 100) (hc : c.isDigit = false) (rest : List Char) :
      number? 2 (paddedDigits 2 n ++ c :: rest) = some (n, c :: rest) :=
    number?_paddedDigits (by decide) hn hc rest
  rw [hrest] at htext hfraction
  rw [ofText?, htext]
  refine Option.bind_eq_some_iff.2 ⟨_, year?_yearText _ _, ?_⟩
  refine Option.bind_eq_some_iff.2 ⟨_, hdash _, ?_⟩
  refine Option.bind_eq_some_iff.2 ⟨_, hnumber (by omega) rfl _, ?_⟩
  refine Option.bind_eq_some_iff.2 ⟨_, hdash _, ?_⟩
  refine Option.bind_eq_some_iff.2 ⟨_, hnumber (by omega) rfl _, ?_⟩
  refine Option.bind_eq_some_iff.2 ⟨_, rfl, ?_⟩
  refine Option.bind_eq_some_iff.2 ⟨_, hnumber (by omega) rfl _, ?_⟩
  refine Option.bind_eq_some_iff.2 ⟨_, hcolon _, ?_⟩
  refine Option.bind_eq_some_iff.2 ⟨_, hnumber (by omega) rfl _, ?_⟩
  refine Option.bind_eq_some_iff.2 ⟨_, hcolon _, ?_⟩
  refine Option.bind_eq_some_iff.2 ⟨_, hnumber (by omega) hc _, ?_⟩
  refine Option.bind_eq_some_iff.2 ⟨_, hfraction, ?_⟩
  refine Option.bind_eq_some_iff.2 ⟨(0, []), by decide, ?_⟩
  exact (if_pos rfl).trans (ofLocal?_eq t)

/-- The beginning of the year 1970. -/
def epoch : Instant := (ofUnixTime? 0).get rfl

end CourseAdmission.Instant
