import CourseAdmission.Files.Tree

/-!
The files that a program sees, and how a path finds its way among them.

A path is followed piece by piece from the root or from the working folder. All pieces but the last
have to lead through folders; the last one may be missing, so that something can be put there. The
lengths of a path and of the names in it are limited, in bytes.
-/

namespace CourseAdmission

/-- Why nothing can be done at a path. -/
inductive StorageError where
  | notFound
  | notFolder
  | isFolder
  | exists
  | nameTooLong
  /-- The path contains the character that ends texts. -/
  | nulInPath
  deriving DecidableEq

def StorageError.message : StorageError → String
  | .notFound => "No such file or directory (os error 2)"
  | .notFolder => "Not a directory (os error 20)"
  | .isFolder => "Is a directory (os error 21)"
  | .exists => "File exists (os error 17)"
  | .nameTooLong => "File name too long (os error 36)"
  | .nulInPath => "file name contained an unexpected NUL byte"

structure Disk where
  root : FileTree
  /-- The names that lead to the working folder. -/
  working : List String

namespace Disk

/-- An empty working folder. -/
def empty (working : List String) : Disk := ⟨.put (.folder []) working (.folder []), working⟩

/-- The disk with something at the names that lead there from the working folder. -/
def withEntry (disk : Disk) (names : List String) (entry : FileTree) : Disk :=
  { disk with root := .put entry (disk.working ++ names) disk.root }

/-- The files below the working folder, with their contents. -/
def files (disk : Disk) : List (String × String) :=
  match disk.root.at? disk.working with
  | some tree => tree.filesBelow ""
  | none => []

/-- Follows pieces of a path from a place, which is given by the names that lead to it. -/
def follow (root : FileTree) (place : List String) : List String → Except StorageError (List String)
  | [] => .ok place
  | piece :: pieces =>
    match root.at? place with
    | none => .error .notFound
    | some (.file _) => .error .notFolder
    | some (.folder _) =>
      match Path.component? piece with
      | some (.name name) =>
        if name.utf8ByteSize ≤ Path.maxNameLength then follow root (place ++ [name]) pieces
        else .error .nameTooLong
      | some .parent => follow root place.dropLast pieces
      | _ => follow root place pieces

/-- What is wrong with a path as a text, before anything is looked up. -/
def checkPath (path : String) : Except StorageError Unit :=
  if path.toList.contains '\x00' then .error .nulInPath
  else if path = "" then .error .notFound
  else if Path.Fits path then .ok ()
  else .error .nameTooLong

/-- The names that a row of pieces leads to. -/
def locatePieces (disk : Disk) (pieces : List String) : Except StorageError (List String) := do
  checkPath ("/".intercalate pieces)
  match pieces with
  | "" :: pieces => follow disk.root [] pieces
  | pieces => follow disk.root disk.working pieces

/-- The names that a path leads to. -/
def locate (disk : Disk) (path : String) : Except StorageError (List String) :=
  disk.locatePieces (Path.pieces path)

/-- What is at a path. -/
def find (disk : Disk) (path : String) : Except StorageError FileTree := do
  match disk.root.at? (← disk.locate path) with
  | some tree => return tree
  | none => throw .notFound

def contains (disk : Disk) (path : String) : Bool := (disk.find path).isOk

/-- The folder at a path. -/
def folder? (disk : Disk) (path : String) : Option FileTree :=
  match disk.find path with
  | .ok tree => if tree.isFolder then some tree else none
  | .error _ => none

/-- The content of the file at a path. -/
def read (disk : Disk) (path : String) : Except StorageError String := do
  match ← disk.find path with
  | .file content => return content
  | .folder _ => throw .isFolder

/-- Writes a file, in the place of one that is there. -/
def write (disk : Disk) (path content : String) : Except StorageError Disk := do
  let place ← disk.locate path
  match disk.root.at? place with
  | some (.folder _) => throw .isFolder
  | _ => return { disk with root := .put (.file content) place disk.root }

/-- The pieces without empty ones at their end, which say no more than that a folder is meant. The
    pieces of the root are all empty. -/
def withoutTrail (pieces : List String) : List String :=
  if pieces.all (· = "") then pieces else (pieces.reverse.dropWhile (· = "")).reverse

/-- Whether a piece of a path names what it leads to. -/
def isName (piece : String) : Bool :=
  match Path.component? piece with
  | some (.name _) => true
  | _ => false

/-- Makes the folder that pieces lead to. Nothing may be there, and the last piece has to name
    it. -/
def makeFolder (disk : Disk) (pieces : List String) : Except StorageError Disk := do
  checkPath ("/".intercalate pieces)
  let pieces := withoutTrail pieces
  let place ← disk.locatePieces pieces
  match disk.root.at? place, (pieces.getLast?.map isName).getD false with
  | none, true => return { disk with root := .put (.folder []) place disk.root }
  | _, _ => throw .exists

/-- Makes the folder that pieces lead to unless it is there. -/
def ensureFolder (disk : Disk) (pieces : List String) : Except StorageError Disk :=
  match disk.makeFolder pieces with
  | .ok disk => .ok disk
  | .error cause =>
    match disk.locatePieces pieces with
    | .ok place =>
      match disk.root.at? place with
      | some (.folder _) => .ok disk
      | _ => .error cause
    | .error _ => .error cause

/-- The pieces of a path that has these components. -/
def piecesOf (components : List Path.Component) : List String :=
  components.map fun component =>
    match component with
    | .root => ""
    | .current => "."
    | .parent => ".."
    | .name name => name

/-- The paths that lead to a path, from the outermost folder on. -/
def ancestors (components : List Path.Component) : List (List String) :=
  (((List.range components.length).map components.take).filter fun leading =>
    !(leading.all (· == .root))).map piecesOf

/-- Makes the folder at a path, and those that lead to it where they are missing. -/
def makeFolders (disk : Disk) (path : String) : Except StorageError Disk :=
  if path = "" then .ok disk
  else
    match disk.ensureFolder (Path.pieces path) with
    | .error .notFound => do
      let disk ← (ancestors (Path.components path)).foldlM ensureFolder disk
      disk.ensureFolder (Path.pieces path)
    | result => result

/-- The files of a disk that another one does not have, or has with other contents; their paths
    begin at the root. -/
def changedFiles (before after : Disk) : List (String × String) :=
  (after.root.filesBelow "/").filter fun (path, content) =>
    match before.read path with
    | .ok old => old != content
    | .error _ => true

end Disk

end CourseAdmission
