import CourseAdmission.Proofs.Markup.Tags

/-!
Escaped texts.

The characters of a text are escaped all at once. This is the same as replacing one of them after
the other in the whole text, as long as the ampersand comes first; so all ampersands of an escaped
text begin an entity.
-/

namespace CourseAdmission.Markup

/-- The characters that are markup, in the order in which they are replaced. -/
def markupChars : List Char := ['&', '<', '>', '"', '\x27']

/-- Writes the entity of a character wherever the character stands. -/
def replaceChar (cs : List Char) (c : Char) : List Char :=
  cs.flatMap fun d => if d = c then escapeChar c else [d]

theorem escapeChar_of_not_mem {c : Char} (h : c ∉ markupChars) : escapeChar c = [c] := by
  simp only [markupChars, List.mem_cons, List.not_mem_nil, or_false, not_or] at h
  obtain ⟨hamp, hlt, hgt, hquote, hapostrophe⟩ := h
  unfold escapeChar
  split <;> first | rfl | contradiction

theorem foldl_replaceChar_eq_flatMap (chars cs : List Char) :
    chars.foldl replaceChar cs = cs.flatMap fun c => chars.foldl replaceChar [c] := by
  induction chars generalizing cs with
  | nil => simp
  | cons char chars ih =>
    rw [List.foldl_cons, ih, replaceChar, List.flatMap_assoc]
    congr 1
    funext c
    rw [List.foldl_cons, ih (replaceChar [c] char), replaceChar, List.flatMap_singleton]

/-- Replacing the characters one after the other escapes each of them once. -/
theorem foldl_replaceChar (cs : List Char) :
    markupChars.foldl replaceChar cs = cs.flatMap escapeChar := by
  rw [foldl_replaceChar_eq_flatMap]
  congr 1
  funext c
  by_cases h : c ∈ markupChars
  · simp only [markupChars, List.mem_cons, List.not_mem_nil, or_false] at h
    rcases h with rfl | rfl | rfl | rfl | rfl <;> decide
  · rw [escapeChar_of_not_mem h]
    simp only [markupChars, List.mem_cons, List.not_mem_nil, or_false, not_or] at h
    simp [markupChars, replaceChar, h]

theorem amp_not_mem_tail_escapeChar (c : Char) : '&' ∉ (escapeChar c).tail := by
  unfold escapeChar
  split <;> simp

/-- An ampersand is the first character of what is written for a character of markup. -/
theorem eq_nil_of_escapeChar_eq {c : Char} {front back : List Char}
    (h : escapeChar c = front ++ '&' :: back) : front = [] ∧ c ∈ markupChars := by
  have hnil : front = [] := by
    cases front with
    | nil => rfl
    | cons d front =>
      have htail := amp_not_mem_tail_escapeChar c
      rw [h] at htail
      simp at htail
  refine ⟨hnil, Decidable.byContradiction fun hc => ?_⟩
  rw [escapeChar_of_not_mem hc, hnil] at h
  obtain ⟨rfl, -⟩ := List.cons_eq_cons.1 h
  exact hc (by decide)

/-- Each ampersand of an escaped text begins an entity. -/
theorem exists_escapeChar_prefix {cs front back : List Char}
    (h : cs.flatMap escapeChar = front ++ '&' :: back) :
    ∃ c ∈ markupChars, escapeChar c <+: '&' :: back := by
  induction cs generalizing front with
  | nil => simp at h
  | cons c cs ih =>
    rw [List.flatMap_cons, List.append_eq_append_iff] at h
    rcases h with ⟨more, -, hrest⟩ | ⟨inside, hchar, hback⟩
    · exact ih hrest
    · cases inside with
      | nil =>
        have hrest : cs.flatMap escapeChar = [] ++ '&' :: back := hback.symm
        exact ih hrest
      | cons d inside =>
        obtain ⟨rfl, hsame⟩ := List.cons_eq_cons.1 hback
        obtain ⟨rfl, hc⟩ := eq_nil_of_escapeChar_eq hchar
        exact ⟨c, hc, cs.flatMap escapeChar, by rw [hchar, hback]; rfl⟩

end CourseAdmission.Markup
