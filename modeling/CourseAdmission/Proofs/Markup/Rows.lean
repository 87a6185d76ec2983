import CourseAdmission.Markup

/-!
The rows of the tables of a page, as the texts of their cells.
-/

namespace CourseAdmission.Markup

mutual

/-- The text of a tree without its elements. -/
def content : Markup → String
  | text s => s
  | verbatim s => s
  | element _ _ children => contentAll children
  | void _ _ => ""
  | closed _ _ => ""

def contentAll : List Markup → String
  | [] => ""
  | child :: children => child.content ++ contentAll children

end

mutual

/-- The texts of the cells, row by row. -/
def rows : Markup → List (List String)
  | text _ => []
  | verbatim _ => []
  | element name _ children =>
    if name = "tr" then [children.map content] else rowsAll children
  | void _ _ => []
  | closed _ _ => []

def rowsAll : List Markup → List (List String)
  | [] => []
  | child :: children => child.rows ++ rowsAll children

end

variable {name s : String} {attributes : List (String × String)} {ms heads : List Markup}

@[simp]
theorem content_label : (label name s).content = s := String.append_empty

@[simp]
theorem content_element : (element name attributes ms).content = contentAll ms := rfl

@[simp]
theorem content_comp_label : content ∘ label name = id := funext fun _ => content_label

@[simp]
theorem contentAll_singleton_text : contentAll [text s] = s := String.append_empty

@[simp]
theorem rowsAll_nil : rowsAll [] = [] := rfl

@[simp]
theorem rowsAll_cons (m : Markup) : rowsAll (m :: ms) = m.rows ++ rowsAll ms := rfl

@[simp]
theorem rows_text : (text s).rows = [] := rfl

@[simp]
theorem rows_verbatim : (verbatim s).rows = [] := rfl

@[simp]
theorem rows_closed : (closed name attributes).rows = [] := rfl

@[simp]
theorem rows_newline : newline.rows = [] := rfl

@[simp]
theorem rows_element (hname : name ≠ "tr") : (element name attributes ms).rows = rowsAll ms :=
  if_neg hname

theorem rowsAll_eq_flatMap : rowsAll ms = ms.flatMap rows := by
  induction ms with
  | nil => rfl
  | cons m ms ih => rw [rowsAll_cons, ih, List.flatMap_cons]

theorem rowsAll_append (others : List Markup) :
    rowsAll (ms ++ others) = rowsAll ms ++ rowsAll others := by
  simp only [rowsAll_eq_flatMap, List.flatMap_append]

theorem rowsAll_map {α : Type} (l : List α) (f : α → Markup) :
    rowsAll (l.map f) = l.flatMap fun a => (f a).rows := by
  rw [rowsAll_eq_flatMap, List.flatMap_map]

theorem rowsAll_flatMap {α : Type} (l : List α) (f : α → List Markup) :
    rowsAll (l.flatMap f) = l.flatMap fun a => rowsAll (f a) := by
  simp only [rowsAll_eq_flatMap, List.flatMap_assoc]

theorem rowsAll_eq_nil_iff : rowsAll ms = [] ↔ ∀ m ∈ ms, m.rows = [] := by
  rw [rowsAll_eq_flatMap, List.flatMap_eq_nil_iff]

theorem rowsAll_lines : rowsAll (lines ms) = rowsAll ms := by
  have hline (m : Markup) : rowsAll [m, newline] = m.rows := by
    rw [rowsAll_cons, rowsAll_cons, rows_newline, rowsAll_nil, List.append_nil, List.append_nil]
  rw [lines, rowsAll_flatMap, rowsAll_eq_flatMap]
  simp only [hline]

theorem rows_block (hname : name ≠ "tr") : (block name attributes ms).rows = rowsAll ms := by
  rw [block, rows_element hname, rowsAll_cons, rowsAll_lines, rows_newline, List.nil_append]

@[simp]
theorem rows_label (hname : name ≠ "tr") : (label name s).rows = [] := rows_element hname

@[simp]
theorem rows_row : (element "tr" attributes ms).rows = [ms.map content] := by
  change (if "tr" = "tr" then [ms.map content] else rowsAll ms) = _
  rw [if_pos rfl]

@[simp]
theorem rows_tableRow : (tableRow ms).rows = [ms.map content] := rows_row

/-- A table has the row of its heads and its own rows. -/
theorem rows_table : (table attributes heads ms).rows = heads.map content :: rowsAll ms := by
  have hhead : (element "thead" [] [tableRow heads]).rows = [heads.map content] := by
    rw [rows_element (by decide), rowsAll_cons, rows_tableRow, rowsAll_nil, List.append_nil]
  rw [table, rows_element (by decide)]
  simp only [rowsAll_cons, rowsAll_nil, rows_newline, List.nil_append, List.append_nil]
  change (element "thead" [] [tableRow heads]).rows ++ (block "tbody" [] ms).rows = _
  rw [hhead, rows_block (by decide), List.singleton_append]

theorem rows_table_labels {α : Type} (l : List α) (f : α → List String) :
    (table attributes heads (l.map fun a => tableRow ((f a).map (label name)))).rows =
      heads.map content :: l.map f := by
  rw [rows_table, rowsAll_map, List.map_eq_flatMap (l := l)]
  simp only [rows_tableRow, List.map_map, content_comp_label, List.map_id]

end CourseAdmission.Markup
