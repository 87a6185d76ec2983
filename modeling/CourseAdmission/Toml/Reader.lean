import CourseAdmission.Toml.Number
import CourseAdmission.Toml.Table
import CourseAdmission.Toml.Text

/-!
Reading a TOML text as a document.

A text is read as a whole or not at all, so there is no document that breaks off.
-/

namespace CourseAdmission.Toml

open Scanner Document

def isNumberStart (c : Char) : Bool := c.isDigit || c == '+' || c == '-' || c == 'i' || c == 'n'

/-- The items of an array between its brackets. A comma may follow the last one. -/
def arrayItems (item : Scanner Node) : Scanner Node := do
  char '['
  let items ← separated (do spacing; let node ← item; spacing; return node) (char ',')
  if !items.isEmpty then discard (optional (char ','))
  spacing
  char ']'
  return .array items

/-- The entries of a table in braces. -/
def inlineTable (item : Scanner Node) : Scanner Node := do
  char '\x7b'
  let lines ← separated
    (do
      let key ← key
      char '='
      blanks
      let node ← item
      blanks
      return (key, node))
    (char ',')
  blanks
  char '\x7d'
  let entries := lines.foldlM (fun entries (key, node) => Entries.add entries key node) []
  return .object (Entry.toMembers (← StateT.lift entries))

/-- A value inside which brackets may be opened `depth` deep. -/
def value (depth : Nat) : Scanner Node := do
  match ← peek with
  | some '[' => bracket arrayItems
  | some '\x7b' => bracket inlineTable
  | some 't' => do word ['t', 'r', 'u', 'e']; return .bool true
  | some 'f' => do word ['f', 'a', 'l', 's', 'e']; return .bool false
  | some c =>
    if c == '"' || c == '\'' then return .ofText (← text)
    else if isNumberStart c then number
    else failure
  | none => failure
where
  bracket (inside : Scanner Node → Scanner Node) : Scanner Node :=
    match depth with
    | 0 => failure
    | depth + 1 => inside (value depth)

/-- The path and the name between the brackets of a header. -/
def header (opening closing : List Char) : Scanner (List String × String) := do
  word opening
  let name ← key
  word closing
  return name

/-- A line of the document that is not blank. -/
inductive Line where
  | table (name : List String × String)
  | element (name : List String × String)
  | entry (key : List String × String) (node : Node)

/-- The next line that says something, after blank ones and comments. -/
def line : Scanner Line := do
  spacing
  let line ←
    (do return .element (← header ['[', '['] [']', ']'])) <|>
    (do return .table (← header ['['] [']'])) <|>
    (do
      let key ← key
      char '='
      blanks
      return .entry key (← value depthLimit))
  lineEnd
  return line

def Draft.addTo (draft : Draft) : Line → Option Draft
  | .table name => draft.beginTable name
  | .element name => draft.beginElement name
  | .entry key node => draft.addLine key node

/-- All lines of a text. A comment may end it without a line end. -/
def lines : Scanner (List Line) := do
  let lines ← many line
  spacing
  discard (optional comment)
  atEnd
  return lines

/-- A mark at the front of a text, which tells the order of its bytes. -/
def byteOrderMark : Char := '\ufeff'

/-- The document that a text holds. -/
def read (text : String) : Option Document.Node := do
  let chars := match text.toList with
    | c :: rest => if c = byteOrderMark then rest else c :: rest
    | [] => []
  let (lines, _) ← lines.run chars
  let draft ← lines.foldlM Draft.addTo .empty
  return .object (Entry.toMembers (← draft.finish))

end CourseAdmission.Toml
