import CourseAdmission.Proofs.Decimal.Plain
import CourseAdmission.Proofs.Toml.Scanner
import CourseAdmission.Toml.Number

/-!
Numbers without an exponent in TOML.

A number is scanned as the first of several kinds that takes its text: those that come before the
right one fail, for they look for a character that cannot follow.
-/

namespace CourseAdmission.Toml

open Scanner Decimal Document

/-- What may follow a value in a written document: nothing, or the end of a part. -/
def EndsValue (rest : List Char) : Prop := ∀ c ∈ rest.head?, c ∈ ['\n', ',', '\x7d']

/-- What may follow the digits before the point: the point, or the end of the number. -/
def EndsDigits (rest : List Char) : Prop := ∀ c ∈ rest.head?, c ∈ ['.', '\n', ',', '\x7d']

theorem EndsValue.endsDigits {rest : List Char} (h : EndsValue rest) : EndsDigits rest :=
  fun c hc => List.mem_cons_of_mem '.' (h c hc)

theorem endsDigits_point (rest : List Char) : EndsDigits ('.' :: rest) := by
  rintro c ⟨⟩
  exact List.mem_cons_self

/-- A character with a property that nothing behind the digits has. -/
theorem EndsDigits.forall_head {rest : List Char} (h : EndsDigits rest) {p : Char → Bool}
    (hp : ['.', '\n', ',', '\x7d'].all (fun c => !p c) = true) : ∀ c ∈ rest.head?, p c = false := by
  intro c hc
  simpa using List.all_eq_true.1 hp c (h c hc)

/-! Rows of digits -/

/-- A row of digits is taken up to what ends it. -/
theorem digits_append {cs rest : List Char} (hcs : Digits cs) (hne : cs ≠ [])
    (hrest : EndsDigits rest) : digits Char.isDigit (cs ++ rest) = some (cs, rest) := by
  obtain ⟨c, cs, rfl⟩ := List.exists_cons_of_ne_nil hne
  rw [Digits, List.forall_mem_cons] at hcs
  have hstop : (satisfy Char.isDigit <|> (do char '_'; satisfy Char.isDigit)) rest = none := by
    cases rest with
    | nil => rfl
    | cons d rest =>
      have hdigit := hrest.forall_head (p := Char.isDigit) (by decide) d rfl
      have hunderscore := hrest.forall_head (p := (· == '_')) (by decide) d rfl
      refine (orElse_of_eq_none (satisfy_of_neg hdigit rest)).trans (bind_of_eq_none ?_)
      exact char_of_ne (by simpa using hunderscore) rest
  have hrun : Run (satisfy Char.isDigit <|> (do char '_'; satisfy Char.isDigit))
      (cs.flatMap (fun c => [c]) ++ rest) (cs.map id) rest :=
    run_flatMap (fun c => [c]) id (fun _ => True)
      (fun d hd rest _ => orElse_of_eq_some (satisfy_of_pos (hcs.2 d hd) rest))
      (fun _ _ => List.cons_ne_nil _ _) (fun _ _ _ => trivial) trivial hstop
  rw [List.map_id, List.flatMap_singleton'] at hrun
  exact (bind_of_eq_some (satisfy_of_pos hcs.1 _)).trans (bind_of_eq_some (many_of_run hrun))

theorem decimalDigits_append {cs rest : List Char} (hcs : Leading cs) (hrest : EndsDigits rest) :
    decimalDigits (cs ++ rest) = some (cs, rest) := by
  rcases hcs with rfl | ⟨c, cs, rfl, hzero, hdigits⟩
  · rfl
  · have hpeek : peek ((c :: cs) ++ rest) = some (some c, (c :: cs) ++ rest) := rfl
    rw [← digits_append hdigits (List.cons_ne_nil _ _) hrest]
    unfold decimalDigits
    refine (bind_of_eq_some hpeek).trans (congrFun ?_ _)
    split
    case h_1 heq => exact absurd (Option.some.inj heq) hzero
    case h_2 => rfl

theorem sign_append (n : PlainNumber) {c : Char} {cs : List Char} (hc : c.isDigit = true) :
    sign (n.signText ++ c :: cs) = some (n.negative, c :: cs) := by
  unfold PlainNumber.signText
  cases n.negative with
  | true => rfl
  | false =>
    have hsign : (c == '+' || c == '-') = false := by
      rw [Bool.or_eq_false_iff, beq_eq_false_iff_ne, beq_eq_false_iff_ne]
      constructor <;> rintro rfl <;> cases hc
    exact bind_of_eq_some (optional_of_eq_none (satisfy_of_neg hsign cs))

/-! Dates and times -/

/-- What follows a row of digits is no digit. -/
def EndsRow (rest : List Char) : Prop := ∀ c ∈ rest.head?, c.isDigit = false

theorem fixedNumber_of_eq_some {count low high value : Nat} {cs rest : List Char}
    (h : fixedNumber count low high cs = some (value, rest)) :
    (cs.take count).length = count ∧ Digits (cs.take count) ∧ rest = cs.drop count := by
  obtain ⟨_, _, hget, h⟩ := bind_eq_some_iff.1 h
  cases hget
  obtain ⟨_, _, hguard, h⟩ := bind_eq_some_iff.1 h
  obtain ⟨hdigits, heq⟩ := guard_eq_some_iff.1 hguard
  cases heq
  obtain ⟨_, _, hguard, h⟩ := bind_eq_some_iff.1 h
  obtain ⟨-, heq⟩ := guard_eq_some_iff.1 hguard
  cases heq
  obtain ⟨_, _, hset, h⟩ := bind_eq_some_iff.1 h
  cases hset
  cases h
  obtain ⟨hlength, hall⟩ := (Bool.and_eq_true _ _).mp hdigits
  exact ⟨beq_iff_eq.1 hlength, List.all_eq_true.1 hall, rfl⟩

variable {count low high : Nat} {cs rest : List Char}

/-- A number of a fixed length lies within the row of digits at the front. -/
theorem count_le_of_fixedNumber {value : Nat} {left : List Char} (hrest : EndsRow rest)
    (h : fixedNumber count low high (cs ++ rest) = some (value, left)) : count ≤ cs.length := by
  obtain ⟨hlength, hdigits, -⟩ := fixedNumber_of_eq_some h
  -- A longer number would reach into what follows the row, and take it for a digit.
  by_contra hlong
  rw [Nat.not_le] at hlong
  rw [List.take_append, List.take_of_length_le hlong.le] at hlength hdigits
  cases rest with
  | nil => simp at hlength; omega
  | cons c rest =>
    obtain ⟨left, hleft⟩ : ∃ left, count - cs.length = left + 1 := ⟨count - cs.length - 1, by omega⟩
    have hdigit := hdigits c (by simp [hleft])
    rw [hrest c rfl] at hdigit
    cases hdigit

/-- No number of a fixed length has a mark behind it where another character follows the digits. -/
theorem char_of_fixedNumber {value : Nat} {left : List Char} {mark : Char} (hcs : Digits cs)
    (hrest : EndsRow rest) (hmark : mark.isDigit = false) (hother : mark ∉ rest.head?)
    (h : fixedNumber count low high (cs ++ rest) = some (value, left)) : char mark left = none := by
  have hcount := count_le_of_fixedNumber hrest h
  obtain ⟨-, -, rfl⟩ := fixedNumber_of_eq_some h
  rw [List.drop_append_of_le_length hcount]
  cases hdrop : cs.drop count with
  | nil =>
    cases rest with
    | nil => rfl
    | cons c rest => exact char_of_ne (fun heq => hother (by simp [heq])) rest
  | cons c left =>
    have hdigit := hcs.drop count c (by simp [hdrop])
    refine char_of_ne ?_ _
    rintro rfl
    rw [hmark] at hdigit
    cases hdigit

/-- A row of digits behind which no mark of a date or a time follows is neither. -/
theorem dateTime_append (hcs : Digits cs) (hrest : EndsRow rest)
    (hmarks : cs ≠ [] → '-' ∉ rest.head? ∧ ':' ∉ rest.head?) : dateTime (cs ++ rest) = none := by
  have hsome {count low high value : Nat} {left : List Char} (hpos : 0 < count)
      (h : fixedNumber count low high (cs ++ rest) = some (value, left)) : cs ≠ [] := by
    rintro rfl
    have := count_le_of_fixedNumber hrest h
    simp at this
    omega
  have hdate : date (cs ++ rest) = none := by
    cases hyear : fixedNumber 4 0 9999 (cs ++ rest) with
    | none => exact bind_of_eq_none hyear
    | some year =>
      have hchar := char_of_fixedNumber hcs hrest rfl (hmarks (hsome (by decide) hyear)).1 hyear
      exact (bind_of_eq_some hyear).trans (bind_of_eq_none hchar)
  have htime : time (cs ++ rest) = none := by
    cases hhour : fixedNumber 2 0 23 (cs ++ rest) with
    | none => exact bind_of_eq_none (discard_of_eq_none hhour)
    | some hour =>
      have hchar := char_of_fixedNumber hcs hrest rfl (hmarks (hsome (by decide) hhour)).2 hhour
      exact (bind_of_eq_some (discard_of_eq_some hhour)).trans (bind_of_eq_none hchar)
  have hget : (get : Scanner (List Char)) (cs ++ rest) = some (cs ++ rest, cs ++ rest) := rfl
  refine (bind_of_eq_some hget).trans (bind_of_eq_none ?_)
  exact (orElse_of_eq_none (bind_of_eq_none hdate)).trans htime

/-! Numbers -/

theorem endsRow_of_endsDigits (hrest : EndsDigits rest) : EndsRow rest :=
  hrest.forall_head (by decide)

theorem not_mem_head? (hrest : EndsDigits rest) {c : Char}
    (hc : c ∉ ['.', '\n', ',', '\x7d']) : c ∉ rest.head? := fun hmem => hc (hrest c hmem)

variable {n : PlainNumber}

theorem endsDigits_fractionText (hrest : EndsValue rest) :
    EndsDigits (n.fractionText ++ rest) := by
  unfold PlainNumber.fractionText
  split
  · exact hrest.endsDigits
  · exact endsDigits_point _

theorem text_append (rest : List Char) :
    n.text ++ rest = n.signText ++ (n.whole ++ (n.fractionText ++ rest)) := by
  rw [PlainNumber.text, List.append_assoc, List.append_assoc]

theorem dateTime_text (hrest : EndsValue rest) : dateTime (n.text ++ rest) = none := by
  have hends := endsDigits_fractionText (n := n) hrest
  rw [text_append, PlainNumber.signText]
  split
  · have hminus : EndsRow (['-'] ++ (n.whole ++ (n.fractionText ++ rest))) := by
      rintro c ⟨⟩
      rfl
    rw [← List.nil_append (['-'] ++ _)]
    exact dateTime_append (List.forall_mem_nil _) hminus (absurd rfl)
  · rw [List.nil_append]
    exact dateTime_append PlainNumber.digits_whole (endsRow_of_endsDigits hends) fun _ =>
      ⟨not_mem_head? hends (by decide), not_mem_head? hends (by decide)⟩

/-- The sign and the digits before the point are scanned first. -/
theorem sign_text (rest : List Char) : sign (n.text ++ rest) =
    some (n.negative, n.whole ++ (n.fractionText ++ rest)) := by
  obtain ⟨c, cs, hwhole, hc⟩ := PlainNumber.exists_whole_eq_cons (n := n)
  rw [text_append, hwhole, List.cons_append]
  exact sign_append n hc

theorem decimalDigits_whole (hrest : EndsValue rest) :
    decimalDigits (n.whole ++ (n.fractionText ++ rest)) =
      some (n.whole, n.fractionText ++ rest) :=
  decimalDigits_append PlainNumber.leading_whole (endsDigits_fractionText hrest)

theorem exponentPart_of_endsDigits (hrest : EndsDigits rest) : exponentPart rest = none := by
  have hmark := hrest.forall_head (p := fun c => c == 'e' || c == 'E') (by decide)
  cases rest with
  | nil => rfl
  | cons c rest => exact bind_of_eq_none (discard_of_eq_none (satisfy_of_neg (hmark c rfl) rest))

theorem char_of_endsValue (hrest : EndsValue rest) {c : Char}
    (hc : c ∉ ['\n', ',', '\x7d']) : char c rest = none := by
  cases rest with
  | nil => rfl
  | cons d rest =>
    refine char_of_ne ?_ rest
    rintro rfl
    exact hc (hrest d rfl)

/-- A number without a point is no number with a fraction or an exponent. -/
theorem float_text_of_whole (hplaces : n.places = 0) (hrest : EndsValue rest) :
    float (n.text ++ rest) = none := by
  have hfraction : n.fractionText = [] := if_pos hplaces
  have hpoint : (do char '.'; digits Char.isDigit) rest = none :=
    bind_of_eq_none (char_of_endsValue hrest (by decide))
  have hexponent : (some <$> exponentPart : Scanner (Option Int)) rest = none :=
    map_of_eq_none (exponentPart_of_endsDigits hrest.endsDigits)
  refine (bind_of_eq_some (sign_text rest)).trans ?_
  refine (bind_of_eq_some (decimalDigits_whole hrest)).trans ?_
  rw [hfraction, List.nil_append]
  exact (bind_of_eq_some (optional_of_eq_none hpoint)).trans (bind_of_eq_none hexponent)

/-- A number with a point is scanned as its nearest double. -/
theorem float_text_of_places (hplaces : n.places ≠ 0) (hrange : n.InRange)
    (hrest : EndsValue rest) :
    float (n.text ++ rest) = some (.number (.double n.toDouble), rest) := by
  have hfraction : n.fractionText = '.' :: n.fraction := if_neg hplaces
  have hpoint : (do char '.'; digits Char.isDigit) ('.' :: (n.fraction ++ rest)) =
      some (n.fraction, rest) :=
    (bind_of_eq_some (char_self _ _)).trans (digits_append PlainNumber.digits_fraction
      (mt PlainNumber.fraction_eq_nil_iff.1 hplaces) hrest.endsDigits)
  refine (bind_of_eq_some (sign_text rest)).trans ?_
  refine (bind_of_eq_some (decimalDigits_whole hrest)).trans ?_
  rw [hfraction, List.cons_append]
  refine (bind_of_eq_some (optional_of_eq_some hpoint)).trans ?_
  refine (bind_of_eq_some
    (optional_of_eq_none (exponentPart_of_endsDigits hrest.endsDigits))).trans ?_
  obtain ⟨hdigits, hfew⟩ := hrange.resolve_left fun h => hplaces h.1
  have hvalue : Binary64.ofDecimal n.negative (ofDigits (n.whole ++ n.fraction))
      (0 - n.fraction.length) = n.toDouble := by
    rw [PlainNumber.ofDigits_whole_append_fraction, PlainNumber.length_fraction, Int.zero_sub,
      PlainNumber.toDouble]
  have hfinite : (n.toDouble != .infinite false) = true := by
    have hdouble : n.toDouble.isFinite = true :=
      Binary64.isFinite_ofDecimal n.negative hdigits (by omega)
    cases htoDouble : n.toDouble with
    | finite => rfl
    | nan => rw [htoDouble] at hdouble; cases hdouble
    | infinite => rw [htoDouble] at hdouble; cases hdouble
  -- No exponent was found, so the scale is that of the fraction alone.
  change (do
    guard (Binary64.ofDecimal n.negative (ofDigits (n.whole ++ n.fraction))
      (0 - n.fraction.length) != .infinite false)
    return Node.number (.double (Binary64.ofDecimal n.negative (ofDigits (n.whole ++ n.fraction))
      (0 - n.fraction.length))) : Scanner Node) rest = _
  rw [hvalue]
  exact bind_of_eq_some (guard_eq_some_iff.2 ⟨hfinite, rfl⟩)

theorem specialFloat_text (rest : List Char) : specialFloat (n.text ++ rest) = none := by
  obtain ⟨c, cs, hwhole, hc⟩ := PlainNumber.exists_whole_eq_cons (n := n)
  have hword {letter : Char} {letters : List Char} (hletter : letter.isDigit = false) :
      word (letter :: letters) (c :: (cs ++ (n.fractionText ++ rest))) = none := by
    refine bind_of_eq_none (char_of_ne ?_ _)
    rintro rfl
    rw [hletter] at hc
    cases hc
  refine (bind_of_eq_some (sign_text rest)).trans ?_
  rw [hwhole, List.cons_append]
  exact (orElse_of_eq_none (bind_of_eq_none (hword rfl))).trans (bind_of_eq_none (hword rfl))

/-- A number without a point is in no other base. -/
theorem basedInteger_text (hplaces : n.places = 0) (hrest : EndsValue rest) :
    basedInteger (n.text ++ rest) = none := by
  have hword {mark : Char} (hmark : mark ∉ ['\n', ',', '\x7d']) :
      word ['0', mark] (n.text ++ rest) = none := by
    have hfraction : n.fractionText = [] := if_pos hplaces
    rw [text_append, PlainNumber.signText]
    split
    · exact bind_of_eq_none (char_of_ne (by decide) _)
    · rw [List.nil_append, hfraction, List.nil_append]
      rcases PlainNumber.leading_whole (n := n) with hzero | ⟨c, cs, hwhole, hc, -⟩
      · rw [hzero]
        refine (bind_of_eq_some (char_self _ _)).trans (bind_of_eq_none ?_)
        exact char_of_endsValue hrest hmark
      · rw [hwhole]
        exact bind_of_eq_none (char_of_ne hc _)
  refine (orElse_of_eq_none (bind_of_eq_none (hword (by decide)))).trans ?_
  exact (orElse_of_eq_none (bind_of_eq_none (hword (by decide)))).trans
    (bind_of_eq_none (hword (by decide)))

/-- A number without a point is scanned as an integer. -/
theorem decimalInteger_text (hplaces : n.places = 0) (hrange : n.InRange)
    (hrest : EndsValue rest) :
    decimalInteger (n.text ++ rest) = some (.number (.integer n.integer), rest) := by
  have hfits : -(Word.limit 63 : Nat) ≤ n.integer ∧ n.integer < (Word.limit 63 : Nat) := by
    rcases hrange with ⟨-, hfits⟩ | ⟨hdigits, -⟩
    · exact hfits
    · have hlimit : (10 : Nat) ^ 15 < Word.limit 63 := by decide
      unfold PlainNumber.integer
      split <;> omega
  have hfraction : n.fractionText = [] := if_pos hplaces
  refine (bind_of_eq_some (sign_text rest)).trans ?_
  refine (bind_of_eq_some (decimalDigits_whole hrest)).trans ?_
  rw [hfraction, List.nil_append, PlainNumber.ofDigits_whole hplaces]
  exact bind_of_eq_some (guard_eq_some_iff.2 ⟨decide_eq_true hfits, rfl⟩)

/-- What a number without an exponent is scanned as. -/
def scannedNumber (n : PlainNumber) : Document.Number :=
  if n.places = 0 then .integer n.integer else .double n.toDouble

/-- A number without an exponent is scanned as an integer or as its nearest double. -/
theorem number_text (hrange : n.InRange) (hrest : EndsValue rest) :
    number (n.text ++ rest) = some (.number (scannedNumber n), rest) := by
  refine (orElse_of_eq_none (dateTime_text hrest)).trans ?_
  unfold scannedNumber
  split
  case isTrue hplaces =>
    refine (orElse_of_eq_none (float_text_of_whole hplaces hrest)).trans ?_
    refine (orElse_of_eq_none (specialFloat_text rest)).trans ?_
    exact (orElse_of_eq_none (basedInteger_text hplaces hrest)).trans
      (decimalInteger_text hplaces hrange hrest)
  case isFalse hplaces => exact orElse_of_eq_some (float_text_of_places hplaces hrange hrest)

end CourseAdmission.Toml
