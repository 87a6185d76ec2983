import CourseAdmission.Text.Lines

/-!
Tables in Markdown.

A pipe ends a cell unless a backslash stands in front of it, and a line end ends the row; `cell`
writes a text so that it does neither.
-/

namespace CourseAdmission.Markdown

/-- A character inside a cell. -/
def cellChar : Char → List Char
  | '|' => ['\\', '|']
  | '\n' => [' ']
  | c => [c]

/-- A text inside a cell. -/
def cell (s : String) : String := String.ofList (s.toList.flatMap cellChar)

def row (cells : List String) : String := "| " ++ " | ".intercalate cells ++ " |"

/-- The line under the heads of a table; the dashes are as many as the head has characters with a
    blank at either side. -/
def rule (heads : List String) : String :=
  let dashes := heads.map fun head => String.ofList (List.replicate (head.length + 2) '-')
  "|" ++ "|".intercalate dashes ++ "|"

/-- A table under its title. -/
def table (title : String) (heads : List String) (rows : List (List String)) : List String :=
  ["### " ++ title, "", row heads, rule heads] ++ rows.map row

/-- Several texts in one cell, on lines of their own. -/
def cellLines (texts : List String) : String := "<br>".intercalate texts

end CourseAdmission.Markdown
