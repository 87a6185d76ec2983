import CourseAdmission.Document.Encoder

/-!
Tables in the making.

Tables are filled line by line, from headers and from dotted keys, and may not be defined twice. How
a table came about decides what may still be added to it. Entries keep the order in which they were
added.
-/

namespace CourseAdmission.Toml

open Document

/-- How a table came about. -/
inductive Origin where
  /-- By a header or braces of its own. -/
  | explicit
  /-- As a table that a header's path leads through. -/
  | header
  /-- As a table that a dotted key leads through. -/
  | dotted
  deriving DecidableEq

inductive Entry where
  | value (node : Node)
  | table (origin : Origin) (entries : List (String × Entry))
  /-- An array of tables, one for each double-bracketed header. -/
  | tables (elements : List (List (String × Entry)))

abbrev Entries : Type := List (String × Entry)

namespace Entry

mutual

def toNode : Entry → Node
  | .value node => node
  | .table _ entries => .object (toMembers entries)
  | .tables elements => .array (toItems elements)

def toMembers : List (String × Entry) → List (Text × Node)
  | [] => []
  | (name, entry) :: entries => (.whole name, entry.toNode) :: toMembers entries

def toItems : List (List (String × Entry)) → List Node
  | [] => []
  | entries :: elements => .object (toMembers entries) :: toItems elements

end

end Entry

namespace Entries

def has (entries : Entries) (name : String) : Bool := entries.any (·.1 == name)

/-- Puts another entry in the place of one. -/
def replace (name : String) (entry : Entry) (entries : Entries) : Entries :=
  entries.map fun old => if old.1 = name then (name, entry) else old

/-- Changes the last element of an array of tables. -/
def changeLast (change : Entries → Option Entries) (elements : List Entries) :
    Option (List Entries) := do
  let last ← elements.getLast?
  return elements.dropLast ++ [← change last]

/-- Changes the table that the path of a header leads to. Tables on the way are created where they
    are missing; in an array of tables the way leads through its last element. -/
def changeAt (change : Entries → Option Entries) : List String → Entries → Option Entries
  | [], entries => change entries
  | name :: path, entries =>
    match entries.lookup name with
    | none => do return entries ++ [(name, .table .header (← changeAt change path []))]
    | some (.value _) => none
    | some (.table origin inner) => do
      return entries.replace name (.table origin (← changeAt change path inner))
    | some (.tables elements) => do
      return entries.replace name (.tables (← changeLast (changeAt change path) elements))

/-- Adds a value under a key with the path `path` to a table of the given origin. A dotted key adds
    to tables of dotted keys alone, and leads through no table that has been defined. -/
def addAt (name : String) (node : Node) (inside : Bool) :
    List String → Origin → Entries → Option Entries
  | [], origin, entries =>
    if (origin == .dotted) != inside || entries.has name then none
    else some (entries ++ [(name, .value node)])
  | step :: path, _, entries =>
    match entries.lookup step with
    | none => do return entries ++ [(step, .table .dotted (← addAt name node true path .dotted []))]
    | some (.value _) => none
    | some (.table .explicit _) => none
    | some (.table origin inner) => do
      return entries.replace step (.table origin (← addAt name node true path origin inner))
    | some (.tables elements) => do
      return entries.replace step
        (.tables (← changeLast (addAt name node true path .explicit) elements))

/-- Adds a value under a key to an explicit table. -/
def add (entries : Entries) (key : List String × String) (node : Node) : Option Entries :=
  addAt key.2 node false key.1 .explicit entries

end Entries

/-- A document in the making: the tables finished so far, and the one that lines are added to. -/
structure Draft where
  finished : Entries
  /-- The header of the table that lines are added to; nothing before the first header. -/
  header : Option (List String × String)
  /-- The header has double brackets. -/
  isElement : Bool
  current : Entries

namespace Draft

def empty : Draft := ⟨[], none, false, []⟩

/-- Puts a finished table where its header says. -/
def place (name : String) (isElement : Bool) (table : Entries) (entries : Entries) :
    Option Entries :=
  if isElement then
    match entries.lookup name with
    | some (.tables elements) => some (entries.replace name (.tables (elements ++ [table])))
    | _ => none
  else if entries.has name then none
  else some (entries ++ [(name, .table .explicit table)])

/-- The tables of the document when the current one is finished. -/
def finish (draft : Draft) : Option Entries :=
  match draft.header with
  | none => some draft.current
  | some (path, name) =>
    Entries.changeAt (place name draft.isElement draft.current) path draft.finished

/-- Begins the table of a header. A table that headers only led through so far becomes it with all
    its entries, and moves to the end; any other entry of the name is a second definition. -/
def beginTable (draft : Draft) (header : List String × String) : Option Draft := do
  let finished ← draft.finish
  let (path, name) := header
  let entries ← tableAt path finished
  match entries.lookup name with
  | none =>
    return ⟨← Entries.changeAt some path finished, some header, false, []⟩
  | some (.table .header inner) =>
    let without := fun entries : Entries => some (entries.filter (·.1 != name))
    return ⟨← Entries.changeAt without path finished, some header, false, inner⟩
  | some _ => none
where
  /-- The table that the path of a header leads to; an empty one if it has to be created. -/
  tableAt : List String → Entries → Option Entries
    | [], entries => some entries
    | step :: path, entries =>
      match entries.lookup step with
      | none => some []
      | some (.value _) => none
      | some (.table _ inner) => tableAt path inner
      | some (.tables elements) => do tableAt path (← elements.getLast?)

/-- Begins another element of an array of tables; the array begins with its first element. -/
def beginElement (draft : Draft) (header : List String × String) : Option Draft := do
  let finished ← draft.finish
  let (path, name) := header
  let withArray := fun entries : Entries =>
    match entries.lookup name with
    | none => some (entries ++ [(name, .tables [])])
    | some (.tables _) => some entries
    | some _ => none
  return ⟨← Entries.changeAt withArray path finished, some header, true, []⟩

/-- Adds a line with a key and a value. -/
def addLine (draft : Draft) (key : List String × String) (node : Node) : Option Draft := do
  return { draft with current := ← draft.current.add key node }

end Draft

end CourseAdmission.Toml
