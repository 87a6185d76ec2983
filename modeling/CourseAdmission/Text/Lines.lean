/-!
Texts of whole lines, and texts brought to a width.
-/

namespace CourseAdmission.Text

/-- The lines, each with its end. -/
def ofLines (lines : List String) : String := String.join (lines.map (· ++ "\n"))

/-- Blanks after a text up to a width; a text that is longer stays as it is. -/
def padRight (width : Nat) (s : String) : String :=
  s ++ String.ofList (List.replicate (width - s.length) ' ')

/-- Blanks in front of a text up to a width. -/
def padLeft (width : Nat) (s : String) : String :=
  String.ofList (List.replicate (width - s.length) ' ') ++ s

end CourseAdmission.Text
