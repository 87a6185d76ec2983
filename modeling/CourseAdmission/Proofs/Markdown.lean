import CourseAdmission.Markdown
import CourseAdmission.Proofs.Decimal.Digits
import CourseAdmission.Proofs.Text.LineEnds

/-!
Texts in the cells of a table: which of them leave the line and the cell as they are, and what the
others do to them.
-/

namespace CourseAdmission.Markdown

open Text (lineEnds ofLines Lacks lacks_append lacks_intercalate lacks_ofList lacks_literal)

/-! ## Texts that end neither a line nor a cell -/

/-- What ends a line or a cell. -/
def marks : List Char := ['\n', '|']

/-- Neither a line end nor a pipe stands in the text. -/
def Inline (text : String) : Prop := Lacks marks text

theorem inline_ofList {cs : List Char} (h : ∀ c ∈ cs, c ∉ marks) : Inline (String.ofList cs) :=
  lacks_ofList h

theorem inline_literal {cs : List Char} (h : cs.all (fun c => !marks.contains c) = true) :
    Inline (String.ofList cs) := lacks_literal h

@[simp]
theorem inline_append {s t : String} : Inline (s ++ t) ↔ Inline s ∧ Inline t := lacks_append

theorem inline_intercalate {separator : String} (hseparator : Inline separator)
    {texts : List String} (htexts : ∀ text ∈ texts, Inline text) :
    Inline (separator.intercalate texts) := lacks_intercalate hseparator htexts

theorem Inline.lineEnds_eq_zero {text : String} (h : Inline text) : lineEnds text = 0 :=
  Lacks.lineEnds_eq_zero (by decide) h

theorem inline_digits {cs : List Char} (h : Decimal.Digits cs) : Inline (String.ofList cs) := by
  refine inline_ofList fun c hc hmark => ?_
  have hdigit := h c hc
  simp only [marks, List.mem_cons, List.not_mem_nil, or_false] at hmark
  rcases hmark with rfl | rfl <;> exact absurd hdigit (by decide)

@[simp]
theorem inline_toString (n : Nat) : Inline (toString n) := by
  have hdigits := inline_digits (Decimal.digits_toDigits n)
  rwa [← Nat.toList_repr, String.ofList_toList] at hdigits

/-- A text that ends neither a line nor a cell is written into a cell as it is. -/
theorem Inline.cell_eq {text : String} (h : Inline text) : cell text = text := by
  have hchars : ∀ c ∈ text.toList, cellChar c = [c] := by
    intro c hc
    unfold cellChar
    split
    · exact absurd (h _ hc) (by decide)
    · exact absurd (h _ hc) (by decide)
    · rfl
  rw [cell, List.flatMap_def, List.map_congr_left hchars, ← List.flatMap_def,
    List.flatMap_singleton', String.ofList_toList]

theorem inline_cellLines {texts : List String} (htexts : ∀ text ∈ texts, Inline text) :
    Inline (cellLines texts) := inline_intercalate (inline_literal (by decide)) htexts

/-! ## Lines -/

theorem lineEnd_not_mem_cellChar (c : Char) : '\n' ∉ cellChar c := by
  unfold cellChar
  split
  · decide
  · decide
  · rename_i hend
    exact fun hmem => hend (List.mem_singleton.1 hmem).symm

/-- What is written into a cell ends no line. -/
theorem lineEnds_cell (text : String) : lineEnds (cell text) = 0 := by
  rw [Text.lineEnds, cell, String.toList_ofList, List.count_eq_zero, List.mem_flatMap]
  rintro ⟨c, -, hmem⟩
  exact lineEnd_not_mem_cellChar c hmem

theorem lineEnds_cellLines (texts : List String) :
    lineEnds (cellLines texts) = (texts.map lineEnds).sum := Text.lineEnds_intercalate rfl texts

theorem lineEnds_row (cells : List String) : lineEnds (row cells) = (cells.map lineEnds).sum := by
  have hopening : lineEnds "| " = 0 := rfl
  have hclosing : lineEnds " |" = 0 := rfl
  rw [row, Text.lineEnds_append, Text.lineEnds_append, hopening, hclosing,
    Text.lineEnds_intercalate rfl, Nat.zero_add, Nat.add_zero]

theorem lineEnds_rule (heads : List String) : lineEnds (rule heads) = 0 := by
  have hdashes (n : Nat) : Lacks ['\n'] (String.ofList (List.replicate n '-')) :=
    lacks_ofList fun c hc => by rw [List.eq_of_mem_replicate hc]; decide
  refine Lacks.lineEnds_eq_zero (List.mem_singleton.2 rfl) ?_
  rw [rule, lacks_append, lacks_append]
  refine ⟨⟨lacks_literal (by decide), lacks_intercalate (lacks_literal (by decide)) ?_⟩,
    lacks_literal (by decide)⟩
  exact List.forall_mem_map.2 fun head _ => hdashes (head.length + 2)

/-- A table has four lines above its rows, and a line for each row; more lines only come out of the
    cells. -/
theorem lineEnds_table {title : String} (htitle : Inline title) {heads : List String}
    (hheads : ∀ head ∈ heads, Inline head) (rows : List (List String)) :
    lineEnds (ofLines (table title heads rows)) =
      4 + (rows.length + (rows.map fun cells => (cells.map lineEnds).sum).sum) := by
  have hmarks : lineEnds "### " = 0 := rfl
  have hhead : lineEnds (row heads) = 0 := by
    rw [lineEnds_row, List.sum_eq_zero_iff_forall_eq_nat]
    exact List.forall_mem_map.2 fun head hmem => (hheads head hmem).lineEnds_eq_zero
  have hrows : (rows.map row).map lineEnds = rows.map fun cells => (cells.map lineEnds).sum := by
    rw [List.map_map]
    exact List.map_congr_left fun cells _ => lineEnds_row cells
  rw [table, Text.lineEnds_ofLines_append, Text.lineEnds_ofLines (rows.map row), hrows,
    List.length_map]
  simp only [Text.lineEnds_ofLines_cons, Text.lineEnds_ofLines_nil, Text.lineEnds_append, hmarks,
    htitle.lineEnds_eq_zero, Text.lineEnds_empty, hhead, lineEnds_rule]

/-- A table whose cells end no line has one line for each row, and four lines above them. -/
theorem lineEnds_table_of_cells {title : String} (htitle : Inline title) {heads : List String}
    (hheads : ∀ head ∈ heads, Inline head) {rows : List (List String)}
    (hcells : ∀ cells ∈ rows, ∀ cell ∈ cells, lineEnds cell = 0) :
    lineEnds (ofLines (table title heads rows)) = rows.length + 4 := by
  have hrow : ∀ cells ∈ rows, (cells.map lineEnds).sum = 0 := fun cells hmem =>
    List.sum_eq_zero_iff_forall_eq_nat.2 (List.forall_mem_map.2 (hcells cells hmem))
  have hrows : (rows.map fun cells => (cells.map lineEnds).sum).sum = 0 :=
    List.sum_eq_zero_iff_forall_eq_nat.2 (List.forall_mem_map.2 hrow)
  rw [lineEnds_table htitle hheads, hrows]
  omega

/-! ## Cells -/

/-- The pipes without a backslash in front of them; `escaped` is whether a backslash stands in front
    of the first character. -/
def pipes (escaped : Bool) : List Char → Nat
  | [] => 0
  | c :: cs => (if c = '|' ∧ escaped = false then 1 else 0) + pipes (c == '\\') cs

/-- The boundaries of cells in a text that no backslash precedes. -/
def boundaries (text : String) : Nat := pipes false text.toList

/-- The cells of a row, each of which lies between two boundaries. -/
def cellCount (row : String) : Nat := boundaries row - 1

/-- A blank escapes nothing, so what stands behind it counts on its own. -/
theorem pipes_append_blank (escaped : Bool) (cs ds : List Char) :
    pipes escaped (cs ++ ' ' :: ds) = pipes escaped cs + pipes false ds := by
  induction cs generalizing escaped with
  | nil => simp [pipes]
  | cons c cs ih => simp only [List.cons_append, pipes, ih, Nat.add_assoc]

theorem pipes_eq_zero {cs : List Char} (h : ∀ c ∈ cs, c ≠ '|') (escaped : Bool) :
    pipes escaped cs = 0 := by
  induction cs generalizing escaped with
  | nil => rfl
  | cons c cs ih =>
    rw [List.forall_mem_cons] at h
    rw [pipes, if_neg fun hc => h.1 hc.1, ih h.2]

theorem Inline.boundaries_eq_zero {text : String} (h : Inline text) : boundaries text = 0 :=
  pipes_eq_zero (fun c hc hpipe => h c hc (by simp [marks, hpipe])) false

/-- What opens a cell is a boundary. -/
theorem pipes_opening (cs : List Char) : pipes false ('|' :: ' ' :: cs) = 1 + pipes false cs := by
  simp [pipes]

/-- Between two cells there is one boundary, and another behind the last one. -/
theorem pipes_intercalate {cells : List (List Char)} (hne : cells ≠ []) :
    pipes false ([' ', '|', ' '].intercalate cells ++ [' ', '|']) =
      cells.length + (cells.map (pipes false)).sum := by
  induction cells with
  | nil => exact absurd rfl hne
  | cons cell cells ih =>
    cases cells with
    | nil =>
      -- The last cell is followed by the boundary that closes the row.
      rw [List.intercalate_singleton, pipes_append_blank]
      simp [pipes, Nat.add_comm]
    | cons next cells =>
      rw [List.intercalate_cons_cons, List.append_assoc, List.append_assoc, List.cons_append,
        List.cons_append, List.cons_append, List.nil_append, pipes_append_blank, pipes_opening,
        ih (List.cons_ne_nil next cells)]
      simp only [List.length_cons, List.map_cons, List.sum_cons]
      omega

/-- A row has the cells that it is made of; more come out of boundaries in them. -/
theorem cellCount_row {cells : List String} (hne : cells ≠ []) :
    cellCount (row cells) = cells.length + (cells.map boundaries).sum := by
  have hcells := pipes_intercalate (mt List.map_eq_nil_iff.1 hne : cells.map String.toList ≠ [])
  have hopening : "| ".toList = ['|', ' '] := rfl
  have hseparator : " | ".toList = [' ', '|', ' '] := rfl
  have hclosing : " |".toList = [' ', '|'] := rfl
  rw [cellCount, boundaries, row, String.toList_append, String.toList_append, hopening, hclosing,
    String.toList_intercalate, hseparator, List.append_assoc, List.cons_append, List.cons_append,
    List.nil_append, pipes_opening, hcells, List.length_map, List.map_map, Nat.add_sub_cancel_left]
  rfl

example : cellCount (row ["a|b", "c"]) = 3 := by decide

/-- What stands for a character holds no boundary, and it ends with a backslash if the character is
    one. -/
theorem pipes_cellChar_append (escaped : Bool) (c : Char) (cs : List Char) :
    pipes escaped (cellChar c ++ cs) = pipes (c == '\\') cs := by
  unfold cellChar
  split
  · simp [pipes]
  · simp [pipes]
  · rename_i hpipe _
    rw [List.singleton_append, pipes, if_neg fun hc => hpipe hc.1, Nat.zero_add]

/-- What is written into a cell stays there, because each pipe of it has a backslash in front. -/
theorem boundaries_cell (text : String) : boundaries (cell text) = 0 := by
  rw [boundaries, cell, String.toList_ofList]
  generalize false = escaped
  induction text.toList generalizing escaped with
  | nil => rfl
  | cons c cs ih => rw [List.flatMap_cons, pipes_cellChar_append, ih]

example : cellCount (row [cell "a|b", "c"]) = 2 := by decide

/-! ## Reading a row -/

/-- What stands before, between and behind the boundaries. -/
def cellPieces (escaped : Bool) : List Char → List (List Char)
  | [] => [[]]
  | c :: cs =>
    if c = '|' ∧ escaped = false then [] :: cellPieces (c == '\\') cs
    else (cellPieces (c == '\\') cs).modifyHead (c :: ·)

/-- The cells that a row is read as: what stands between two boundaries, without the blank on either
    side. -/
def cellsOf (row : String) : List String :=
  ((cellPieces false row.toList).drop 1).dropLast.map fun cs =>
    String.ofList (cs.drop 1).dropLast

example : cellsOf "| a | b\\|c |" = ["a", "b\\|c"] := by decide

theorem length_cellPieces (escaped : Bool) (cs : List Char) :
    (cellPieces escaped cs).length = pipes escaped cs + 1 := by
  induction cs generalizing escaped with
  | nil => rfl
  | cons c cs ih =>
    rw [cellPieces, pipes]
    split
    · rw [List.length_cons, ih, Nat.add_comm 1]
    · rw [List.length_modifyHead, ih, Nat.zero_add]

/-- As many cells are read as are counted. -/
theorem length_cellsOf (row : String) : (cellsOf row).length = cellCount row := by
  rw [cellsOf, List.length_map, List.length_dropLast, List.length_drop, length_cellPieces,
    Nat.add_sub_cancel, cellCount, boundaries]

/-- A piece without boundaries ends where the next cell begins. -/
theorem cellPieces_append {escaped : Bool} {cs : List Char} (h : pipes escaped cs = 0)
    (ds : List Char) :
    cellPieces escaped (cs ++ ' ' :: '|' :: ds) = (cs ++ [' ']) :: cellPieces false ds := by
  induction cs generalizing escaped with
  | nil => simp [cellPieces]
  | cons c cs ih =>
    rw [pipes] at h
    split at h
    case isTrue => omega
    case isFalse hcut =>
      rw [Nat.zero_add] at h
      rw [List.cons_append, cellPieces, if_neg hcut, ih h]
      rfl

theorem cellPieces_intercalate {cells : List (List Char)} (hne : cells ≠ [])
    (hcells : ∀ cell ∈ cells, pipes false cell = 0) :
    cellPieces false (' ' :: ([' ', '|', ' '].intercalate cells ++ [' ', '|'])) =
      (cells.map fun cell => ' ' :: (cell ++ [' '])) ++ [[]] := by
  have hcell {cell : List Char} (h : pipes false cell = 0) (ds : List Char) :
      cellPieces false (' ' :: (cell ++ ' ' :: '|' :: ds)) =
        (' ' :: (cell ++ [' '])) :: cellPieces false ds := by
    have hblank : pipes false (' ' :: cell) = 0 := by simpa [pipes] using h
    exact cellPieces_append hblank ds
  induction cells with
  | nil => exact absurd rfl hne
  | cons cell cells ih =>
    rw [List.forall_mem_cons] at hcells
    cases cells with
    | nil => rw [List.intercalate_singleton, hcell hcells.1]; rfl
    | cons next cells =>
      rw [List.intercalate_cons_cons, List.append_assoc, List.append_assoc, List.cons_append,
        List.cons_append, List.cons_append, List.nil_append, hcell hcells.1,
        ih (List.cons_ne_nil next cells) hcells.2]
      rfl

/-- A row is read as the cells that it is made of, if no boundary stands in them. -/
theorem cellsOf_row {cells : List String} (hne : cells ≠ [])
    (hcells : ∀ cell ∈ cells, boundaries cell = 0) : cellsOf (row cells) = cells := by
  have hopening : "| ".toList = ['|', ' '] := rfl
  have hseparator : " | ".toList = [' ', '|', ' '] := rfl
  have hclosing : " |".toList = [' ', '|'] := rfl
  have hpieces := cellPieces_intercalate
    (mt List.map_eq_nil_iff.1 hne : cells.map String.toList ≠ []) (List.forall_mem_map.2 hcells)
  have hfirst (cs : List Char) : cellPieces false ('|' :: cs) = [] :: cellPieces false cs := rfl
  rw [cellsOf, row, String.toList_append, String.toList_append, hopening, hclosing,
    String.toList_intercalate, hseparator, List.append_assoc, List.cons_append, List.cons_append,
    List.nil_append, hfirst, hpieces, List.drop_one, List.tail_cons, List.dropLast_concat,
    List.map_map, List.map_map]
  simp [Function.comp_def]

end CourseAdmission.Markdown
