import CourseAdmission.Binary64.Basic
import CourseAdmission.Text.Blank

/-!
What students achieved: one result for each assignment, gathered by student and by course.
-/

namespace CourseAdmission

/-- The kind of graded work; rules look at the results of one kind. -/
inductive AssignmentType where
  | homework
  | testat
  | seminar
  | project
  | other
  deriving DecidableEq, Repr, Inhabited

namespace AssignmentType

/-- All types, in the order in which they are declared. -/
def all : List AssignmentType := [.homework, .testat, .seminar, .project, .other]

def tag : AssignmentType → String
  | .homework => "HOMEWORK"
  | .testat => "TESTAT"
  | .seminar => "SEMINAR"
  | .project => "PROJECT"
  | .other => "OTHER"

/-- Tags are compared without blanks at their ends and without regard to the case of ASCII
    letters. -/
def normalTag (text : String) : String := String.map Char.toUpper (Text.trim text)

/-- The type that a text names. -/
def ofText? (text : String) : Option AssignmentType :=
  all.find? fun type => type.tag == normalTag text

end AssignmentType

/-- One student's outcome on one assignment. Bonus points may take the percentage above 100, and
    whether the assignment is passed does not follow from it. -/
structure AssignmentResult where
  id : String
  type : AssignmentType
  percent : Binary64
  passed : Bool
  deriving DecidableEq, Inhabited

structure StudentResults where
  id : String
  results : List AssignmentResult
  deriving DecidableEq, Inhabited

structure CourseResults where
  id : String
  students : List StudentResults
  deriving DecidableEq, Inhabited

end CourseAdmission
