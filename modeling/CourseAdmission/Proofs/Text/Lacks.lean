import CourseAdmission.Text.Lines

/-!
Texts that do without certain characters.
-/

namespace CourseAdmission.Text

/-- None of these characters stands in the text. -/
def Lacks (chars : List Char) (text : String) : Prop := ∀ c ∈ text.toList, c ∉ chars

variable {chars : List Char}

theorem Lacks.of_subset {others : List Char} {text : String} (h : Lacks chars text)
    (hsubset : others ⊆ chars) : Lacks others text :=
  fun c hc hother => h c hc (hsubset hother)

theorem lacks_ofList {cs : List Char} (h : ∀ c ∈ cs, c ∉ chars) :
    Lacks chars (String.ofList cs) := by
  rwa [Lacks, String.toList_ofList]

/-- A text that is written out is seen to do without them. -/
theorem lacks_literal {cs : List Char} (h : cs.all (fun c => !chars.contains c) = true) :
    Lacks chars (String.ofList cs) := lacks_ofList (by simpa using h)

theorem lacks_append {s t : String} : Lacks chars (s ++ t) ↔ Lacks chars s ∧ Lacks chars t := by
  rw [Lacks, String.toList_append]
  exact List.forall_mem_append

theorem lacks_intercalate {separator : String} (hseparator : Lacks chars separator)
    {texts : List String} (htexts : ∀ text ∈ texts, Lacks chars text) :
    Lacks chars (separator.intercalate texts) := by
  induction texts with
  | nil => simp [Lacks]
  | cons text texts ih =>
    rw [List.forall_mem_cons] at htexts
    cases texts with
    | nil => simpa using htexts.1
    | cons next texts =>
      rw [String.intercalate_cons_cons, lacks_append, lacks_append]
      exact ⟨⟨htexts.1, hseparator⟩, ih htexts.2⟩

theorem lacks_ofLines (hend : '\n' ∉ chars) {lines : List String} :
    Lacks chars (ofLines lines) ↔ ∀ line ∈ lines, Lacks chars line := by
  have hline : Lacks chars "\n" := lacks_ofList (by simpa using hend)
  unfold ofLines
  induction lines with
  | nil => simp [Lacks]
  | cons line lines ih =>
    rw [List.map_cons, String.join_cons, lacks_append, lacks_append, and_iff_left hline,
      List.forall_mem_cons]
    exact and_congr_right fun _ => ih

end CourseAdmission.Text
