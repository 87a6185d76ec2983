import CourseAdmission.Files.Path

/-!
Folders and what is in them.
-/

namespace CourseAdmission

inductive FileTree where
  | file (content : String)
  /-- The entries of a folder in the order in which they are listed, each under its name. -/
  | folder (entries : List (String × FileTree))
  deriving Inhabited

namespace FileTree

def isFolder : FileTree → Bool
  | folder _ => true
  | file _ => false

/-- The entry of a folder that has a name. -/
def entry? (name : String) : FileTree → Option FileTree
  | folder entries => entries.lookup name
  | file _ => none

/-- What the names lead to, one inside the other. -/
def at? (tree : FileTree) : List String → Option FileTree
  | [] => some tree
  | name :: names => (tree.entry? name).bind (·.at? names)

/-- Puts an entry into the place of the one of its name, or behind the others. -/
def setEntry (name : String) (entry : FileTree) :
    List (String × FileTree) → List (String × FileTree)
  | [] => [(name, entry)]
  | (other, tree) :: entries =>
    if other = name then (name, entry) :: entries else (other, tree) :: setEntry name entry entries

/-- Puts something where the names lead to; folders that are not there are made. Nothing can be put
    into a file. -/
def put (content : FileTree) : List String → FileTree → FileTree
  | [], _ => content
  | name :: names, folder entries =>
    folder (setEntry name (put content names ((entries.lookup name).getD (folder []))) entries)
  | _ :: _, file text => file text

mutual

/-- The paths at and below a path that name no folder. A folder whose path is too long is not known
    as one, and what is in it is not found. -/
def listed (path : String) : FileTree → List String
  | file _ => [path]
  | folder entries => if Path.Fits path then listedEntries path entries else [path]

def listedEntries (path : String) : List (String × FileTree) → List String
  | [] => []
  | (name, tree) :: entries => tree.listed (Path.join path name) ++ listedEntries path entries

end

mutual

/-- The files at and below a path, with their contents. -/
def filesBelow (path : String) : FileTree → List (String × String)
  | file content => [(path, content)]
  | folder entries => filesOfEntries path entries

def filesOfEntries (path : String) : List (String × FileTree) → List (String × String)
  | [] => []
  | (name, tree) :: entries => tree.filesBelow (Path.join path name) ++ filesOfEntries path entries

end

end FileTree

/-- Whether a file may hold criteria: its name ends in `.json` or `.toml`. -/
def Path.isCriteriaFile (path : String) : Bool :=
  match Path.extension? path with
  | some ending => ending == "json" || ending == "toml"
  | none => false

/-- The paths of the files below a folder that may hold criteria, in the order of paths. -/
def FileTree.criteriaFiles (path : String) (tree : FileTree) : List String :=
  ((tree.listed path).filter Path.isCriteriaFile).mergeSort Path.le

end CourseAdmission
