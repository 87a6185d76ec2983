import CourseAdmission.Json.Token
import CourseAdmission.Proofs.Decimal.Digits

/-!
Spelled number literals are scanned as the numbers that they stand for.
-/

namespace CourseAdmission.Json

open Decimal (Digits Leading)

/-- What may follow a number in a written document: nothing, or the end of a part. -/
def Ended (rest : List Char) : Prop := ∀ c ∈ rest.head?, c ∈ ['\n', ',', ']', '\x7d']

theorem ended_nil : Ended [] := by simp [Ended]

theorem ended_cons {c : Char} (rest : List Char) (hc : c ∈ ['\n', ',', ']', '\x7d']) :
    Ended (c :: rest) := by
  simpa [Ended] using hc

namespace Numeral

/-- The text of a literal. -/
def spelled (n : Numeral) : List Char :=
  (if n.negative then ['-'] else []) ++ n.whole ++
    (if n.fraction = [] then [] else '.' :: n.fraction) ++
    match n.exponent with
    | none => []
    | some (negative, digits) => 'e' :: (if negative then '-' else '+') :: digits

/-- The parts of a literal are rows of digits, and zeros lead no others before the point. -/
structure WellFormed (n : Numeral) : Prop where
  whole : Leading n.whole
  fraction : Digits n.fraction
  exponent : ∀ negative digits, n.exponent = some (negative, digits) →
    digits ≠ [] ∧ Digits digits

end Numeral

namespace Token

open Numeral (Draft)

/-- A digit where a token begins is the first of a number. -/
theorem begin_digit {c : Char} (hc : c.isDigit = true) :
    begin c =
      ([], .number ⟨if c = '0' then .leadingZero else .whole, false, [c], [], false, []⟩) := by
  have hminus : c ≠ '-' := by
    rintro rfl
    cases hc
  unfold begin
  split
  case isTrue hblank => rcases hblank with rfl | rfl | rfl | rfl <;> cases hc
  split <;> try cases hc
  unfold Numeral.Draft.start?
  by_cases hzero : c = '0'
  · simp [hzero]
  · simp [hminus, hzero, hc]

/-- A draft that takes digits one by one takes a row of them. -/
theorem scan_digits (draft : List Char → Draft)
    (hnext : ∀ taken c, c.isDigit = true → (draft taken).next? c = some (draft (c :: taken)))
    {cs : List Char} (hcs : Digits cs) (taken rest : List Char) :
    scan (.number (draft taken)) (cs ++ rest) =
      scan (.number (draft (cs.reverse ++ taken))) rest := by
  induction cs generalizing taken with
  | nil => rfl
  | cons c cs ih =>
    have hrest := ih (fun d hd => hcs d (by simp [hd])) (c :: taken)
    rw [List.cons_append, scan, step, hnext taken c (hcs c (by simp))]
    simpa using hrest

/-- The stage of a literal whose digits before the point are complete. -/
def wholeStage (whole : List Char) : Numeral.Stage :=
  if whole = ['0'] then .leadingZero else .whole

theorem scan_whole {whole : List Char} (negative : Bool) (hwhole : Leading whole)
    (rest : List Char) :
    scan .between ((if negative then ['-'] else []) ++ whole ++ rest) =
      scan (.number ⟨wholeStage whole, negative, whole.reverse, [], false, []⟩) rest := by
  rcases hwhole with rfl | ⟨c, cs, rfl, hzero, hdigits⟩
  · cases negative <;> rfl
  · have hc := hdigits c (by simp)
    have hrow := scan_digits (fun taken => ⟨.whole, negative, taken, [], false, []⟩)
      (fun taken d hd => by simp [Numeral.Draft.next?, hd])
      (fun d hd => hdigits d (List.mem_cons_of_mem c hd)) [c] rest
    have hstage : wholeStage (c :: cs) = .whole := if_neg (by simp [hzero])
    rw [hstage, List.reverse_cons, ← hrow]
    cases negative with
    | false =>
      change scan .between (c :: (cs ++ rest)) = _
      rw [scan, step, begin_digit hc, if_neg hzero]
      rfl
    | true =>
      change scan (.number ⟨.sign, true, [], [], false, []⟩) (c :: (cs ++ rest)) = _
      simp [scan, step, Numeral.Draft.next?, hzero, hc]

theorem scan_fraction {fraction : List Char} (negative : Bool) (whole : List Char)
    (hfraction : Digits fraction) (rest : List Char) :
    scan (.number ⟨wholeStage whole, negative, whole.reverse, [], false, []⟩)
        ((if fraction = [] then [] else '.' :: fraction) ++ rest) =
      scan (.number ⟨if fraction = [] then wholeStage whole else .fraction, negative,
        whole.reverse, fraction.reverse, false, []⟩) rest := by
  cases fraction with
  | nil => rfl
  | cons c cs =>
    have hc := hfraction c (by simp)
    have hrow := scan_digits (fun taken => ⟨.fraction, negative, whole.reverse, taken, false, []⟩)
      (fun taken d hd => by simp [Numeral.Draft.next?, hd])
      (fun d hd => hfraction d (List.mem_cons_of_mem c hd)) [c] rest
    rw [if_neg (List.cons_ne_nil c cs), if_neg (List.cons_ne_nil c cs), List.reverse_cons, ← hrow]
    unfold wholeStage
    split <;> simp [scan, step, Numeral.Draft.next?, hc]

theorem scan_exponent {draft : Draft} (hfinish : draft.finish?.isSome) (hnone : draft.exponent = [])
    (hpositive : draft.exponentNegative = false) (hstage : draft.stage ≠ .exponent)
    (negative : Bool) {digits : List Char} (hne : digits ≠ []) (hdigits : Digits digits)
    (rest : List Char) :
    scan (.number draft) ('e' :: (if negative then '-' else '+') :: (digits ++ rest)) =
      scan (.number ⟨.exponent, draft.negative, draft.whole, draft.fraction, negative,
        digits.reverse⟩) rest := by
  obtain ⟨stage, sign, whole, fraction, _, _⟩ := draft
  dsimp only at hnone hpositive hstage ⊢
  subst hnone hpositive
  obtain ⟨c, cs, rfl⟩ := List.exists_cons_of_ne_nil hne
  have hc := hdigits c (by simp)
  have hrow := scan_digits (fun taken => ⟨.exponent, sign, whole, fraction, negative, taken⟩)
    (fun taken d hd => by simp [Numeral.Draft.next?, hd])
    (fun d hd => hdigits d (List.mem_cons_of_mem c hd)) [c] rest
  rw [List.reverse_cons, ← hrow]
  cases stage <;> simp [Numeral.Draft.finish?] at hfinish hstage <;>
    cases negative <;> simp [scan, step, Numeral.Draft.next?, hc]

/-- A character that ends a part goes on with no number. -/
theorem next?_of_ends {draft : Draft} (hfinish : draft.finish?.isSome) {c : Char}
    (hc : c ∈ ['\n', ',', ']', '\x7d']) : draft.next? c = none ∧ c.isDigit = false := by
  have hother : c.isDigit = false ∧ c ≠ '.' ∧ c ≠ 'e' ∧ c ≠ 'E' := by
    revert hc
    simp only [List.mem_cons, List.not_mem_nil, or_false]
    rintro (rfl | rfl | rfl | rfl) <;> decide
  refine ⟨?_, hother.1⟩
  obtain ⟨stage, _, whole, fraction, _, _⟩ := draft
  cases stage <;> simp [Numeral.Draft.finish?] at hfinish <;> simp [Numeral.Draft.next?, hother]

/-- A draft that may end is complete at the end of a part. -/
theorem scan_ended {draft : Draft} {n : Numeral} (hfinish : draft.finish? = some n)
    {rest : List Char} (hrest : Ended rest) :
    scan (.number draft) rest = .number n.number :: scan .between rest := by
  cases rest with
  | nil => simp [scan, finish, hfinish]
  | cons c cs =>
    have hmay : draft.finish?.isSome := by simp [hfinish]
    obtain ⟨hnext, hdigit⟩ := next?_of_ends hmay (hrest c rfl)
    simp [scan, step, hnext, hfinish, hdigit]

/-- A spelled literal at the end of a part is scanned as its number. -/
theorem scan_spelled {n : Numeral} (hn : n.WellFormed) {rest : List Char} (hrest : Ended rest) :
    scan .between (n.spelled ++ rest) = .number n.number :: scan .between rest := by
  obtain ⟨negative, whole, fraction, exponent⟩ := n
  have hfinish : Numeral.Draft.finish?
      ⟨if fraction = [] then wholeStage whole else .fraction, negative, whole.reverse,
        fraction.reverse, false, []⟩ = some ⟨negative, whole, fraction, none⟩ := by
    unfold Numeral.Draft.finish? wholeStage
    by_cases hfraction : fraction = []
    · by_cases hzero : whole = ['0'] <;> simp [hfraction, hzero]
    · simp [hfraction]
  unfold Numeral.spelled
  dsimp only
  rw [List.append_assoc, List.append_assoc, scan_whole negative hn.whole,
    scan_fraction negative whole hn.fraction]
  rcases exponent with _ | ⟨exponentNegative, digits⟩
  · exact scan_ended hfinish hrest
  · obtain ⟨hne, hdigits⟩ := hn.exponent exponentNegative digits rfl
    have hstage : (if fraction = [] then wholeStage whole else .fraction) ≠ .exponent := by
      unfold wholeStage
      split
      · split <;> simp
      · simp
    rw [List.cons_append, List.cons_append, scan_exponent (by simp [hfinish]) rfl rfl hstage
      exponentNegative hne hdigits]
    apply scan_ended _ hrest
    simp [Numeral.Draft.finish?]

end Token

end CourseAdmission.Json
