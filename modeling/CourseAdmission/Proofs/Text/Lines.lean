import CourseAdmission.Proofs.Text.LineEnds

/-!
The lines that a text is read as, whatever lines it was put together from.
-/

namespace CourseAdmission.Text

/-- What stands before, between and behind the line ends. -/
def pieces : List Char → List (List Char)
  | [] => [[]]
  | c :: cs => if c = '\n' then [] :: pieces cs else (pieces cs).modifyHead (c :: ·)

/-- A text in pieces, the last of which no line end follows. -/
def splitLines (text : String) : List String := (pieces text.toList).map String.ofList

/-- The lines of a text, each of which is followed by a line end. -/
def linesOf (text : String) : List String := (splitLines text).dropLast

example : linesOf "a\n\nb\n" = ["a", "", "b"] := by decide

theorem pieces_lineEnd (cs : List Char) : pieces ('\n' :: cs) = [] :: pieces cs := rfl

theorem pieces_cons {c : Char} (h : c ≠ '\n') (cs : List Char) :
    pieces (c :: cs) = (pieces cs).modifyHead (c :: ·) := if_neg h

theorem exists_pieces_eq_cons (cs : List Char) : ∃ first rest, pieces cs = first :: rest := by
  induction cs with
  | nil => exact ⟨[], [], rfl⟩
  | cons c cs ih =>
    obtain ⟨first, rest, hpieces⟩ := ih
    by_cases hend : c = '\n'
    · rw [hend, pieces_lineEnd, hpieces]
      exact ⟨[], first :: rest, rfl⟩
    · rw [pieces_cons hend, hpieces]
      exact ⟨c :: first, rest, rfl⟩

/-- A line end separates the pieces in front of it from those behind it. -/
theorem pieces_append_lineEnd (cs ds : List Char) :
    pieces (cs ++ '\n' :: ds) = pieces cs ++ pieces ds := by
  induction cs with
  | nil => rfl
  | cons c cs ih =>
    obtain ⟨first, rest, hpieces⟩ := exists_pieces_eq_cons cs
    rw [List.cons_append]
    by_cases hend : c = '\n'
    · rw [hend, pieces_lineEnd, pieces_lineEnd, ih, List.cons_append]
    · rw [pieces_cons hend, pieces_cons hend, ih, hpieces]
      rfl

/-- What ends no line becomes part of the first piece of what follows. -/
theorem pieces_append {cs : List Char} (h : '\n' ∉ cs) (ds : List Char) :
    pieces (cs ++ ds) = (pieces ds).modifyHead (cs ++ ·) := by
  obtain ⟨first, rest, hpieces⟩ := exists_pieces_eq_cons ds
  rw [hpieces, List.modifyHead_cons]
  induction cs with
  | nil => exact hpieces
  | cons c cs ih =>
    rw [List.mem_cons, not_or] at h
    rw [List.cons_append, pieces_cons (Ne.symm h.1), ih h.2]
    rfl

/-- A text that ends no line is put in front of the first line of another one. -/
theorem exists_splitLines_append {s : String} (h : lineEnds s = 0) (t : String) :
    ∃ first rest, splitLines t = first :: rest ∧ splitLines (s ++ t) = (s ++ first) :: rest := by
  obtain ⟨first, rest, hpieces⟩ := exists_pieces_eq_cons t.toList
  refine ⟨String.ofList first, rest.map String.ofList, by rw [splitLines, hpieces]; rfl, ?_⟩
  rw [splitLines, String.toList_append, pieces_append (List.count_eq_zero.1 h), hpieces]
  simp

theorem splitLines_of_lineEnds_eq_zero {text : String} (h : lineEnds text = 0) :
    splitLines text = [text] := by
  obtain ⟨first, rest, hempty, hsplit⟩ := exists_splitLines_append h ""
  have hnone : splitLines "" = [""] := rfl
  obtain ⟨rfl, rfl⟩ : first = "" ∧ rest = [] := by simpa [hnone] using hempty.symm
  simpa using hsplit

theorem splitLines_ofLines (lines : List String) :
    splitLines (ofLines lines) = lines.flatMap splitLines ++ [""] := by
  have hend : "\n".toList = ['\n'] := rfl
  induction lines with
  | nil => rfl
  | cons line lines ih =>
    rw [splitLines, ofLines] at ih
    rw [splitLines, ofLines, List.map_cons, String.join_cons, String.toList_append,
      String.toList_append, hend, List.append_assoc, List.singleton_append, pieces_append_lineEnd,
      List.map_append, ih, List.flatMap_cons, splitLines, List.append_assoc]

/-- Lines are read back, and each line end inside them makes a further one. -/
theorem linesOf_ofLines (lines : List String) :
    linesOf (ofLines lines) = lines.flatMap splitLines := by
  rw [linesOf, splitLines_ofLines, List.dropLast_concat]

theorem flatMap_splitLines_of_lineEnds_eq_zero {lines : List String}
    (h : ∀ line ∈ lines, lineEnds line = 0) : lines.flatMap splitLines = lines := by
  induction lines with
  | nil => rfl
  | cons line lines ih =>
    rw [List.forall_mem_cons] at h
    rw [List.flatMap_cons, splitLines_of_lineEnds_eq_zero h.1, ih h.2, List.singleton_append]

end CourseAdmission.Text
