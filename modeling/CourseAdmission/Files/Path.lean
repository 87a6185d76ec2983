/-!
Paths as texts, and the components that they stand for.

Empty components and `.` mean nothing, except that a relative path may begin with `.`. Paths are
ordered component by component.
-/

namespace CourseAdmission.Path

inductive Component where
  | root
  | current
  | parent
  | name (s : String)
  deriving DecidableEq, Repr

/-- The texts between the slashes. -/
def pieces (path : String) : List String := (splitSlashes path.toList).map String.ofList
where
  splitSlashes : List Char → List (List Char)
    | [] => [[]]
    | c :: cs =>
      if c = '/' then [] :: splitSlashes cs
      else match splitSlashes cs with
        | [] => [[c]]
        | piece :: others => (c :: piece) :: others

/-- The component that a text between slashes stands for, if it stands for one. -/
def component? (piece : String) : Option Component :=
  if piece = "" ∨ piece = "." then none
  else if piece = ".." then some .parent
  else some (.name piece)

/-- A path that begins with a slash begins at the root. -/
def components (path : String) : List Component :=
  match pieces path with
  | [] => []
  | first :: others =>
    let leading :=
      if first = "." then [.current]
      else if first = "" ∧ !others.isEmpty then [.root]
      else (component? first).toList
    leading ++ others.filterMap component?

/-- The names among the components. -/
def names (path : String) : List String :=
  (components path).filterMap fun component =>
    match component with
    | .name s => some s
    | _ => none

/-- The last component, if it is a name. -/
def fileName? (path : String) : Option String :=
  match (components path).getLast? with
  | some (.name s) => some s
  | _ => none

/-- The greatest number of bytes that a path has. -/
def maxLength : Nat := 4095

/-- The greatest number of bytes that a name in a path has. -/
def maxNameLength : Nat := 255

/-- A path that is not too long to be followed. -/
def Fits (path : String) : Prop := path.utf8ByteSize ≤ maxLength

instance (path : String) : Decidable (Fits path) := inferInstanceAs (Decidable (_ ≤ _))

/-- What follows the last dot of a file name; a dot at its front is part of the name. -/
def nameExtension? (name : String) : Option String :=
  let reversed := name.toList.reverse
  let ending := reversed.takeWhile (· != '.')
  match reversed.drop ending.length with
  | '.' :: _ :: _ => some (String.ofList ending.reverse)
  | _ => none

def extension? (path : String) : Option String := (fileName? path).bind nameExtension?

/-- The path of an entry of a folder. -/
def join (folder name : String) : String :=
  if folder = "" ∨ folder.toList.getLast? = some '/' then folder ++ name else folder ++ "/" ++ name

/-- The rank of a component among those that are no names. -/
def Component.rank : Component → Nat
  | .root => 0
  | .current => 1
  | .parent => 2
  | .name _ => 3

/-- Names are ordered by their characters, after all other components. -/
def Component.before : Component → Component → Bool
  | .name a, .name b => decide (a < b)
  | a, b => decide (a.rank < b.rank)

/-- Whether a row of components comes strictly before another one. -/
def before : List Component → List Component → Bool
  | _, [] => false
  | [], _ :: _ => true
  | a :: as, b :: bs => a.before b || (a == b && before as bs)

/-- The order of paths. -/
def le (a b : String) : Bool := !before (components b) (components a)

end CourseAdmission.Path
