import CourseAdmission.Decimal.Layout
import CourseAdmission.Document.Basic

/-!
Writing documents as JSON text, in one line or indented.
-/

namespace CourseAdmission.Json

open Document (Node Number Text)

/-- Numbers in documents: the shortest digits, a whole number with `.0`, and an exponent from `1e16`
    on and below `1e-5`. -/
def layout : Decimal.Layout :=
  ⟨.even, fun place => decide (-5 ≤ place ∧ place < 16), ".0"⟩

def hexDigit (n : Nat) : Char := if n < 10 then Char.ofNat (48 + n) else Char.ofNat (87 + n)

/-- Quotes, backslashes and control characters are escaped, all other characters stand for
    themselves. -/
def escape (c : Char) : List Char :=
  match c with
  | '"' => ['\\', '"']
  | '\\' => ['\\', '\\']
  | '\x08' => ['\\', 'b']
  | '\x0c' => ['\\', 'f']
  | '\n' => ['\\', 'n']
  | '\r' => ['\\', 'r']
  | '\t' => ['\\', 't']
  | c =>
    if c.toNat < 0x20 then ['\\', 'u', '0', '0', hexDigit (c.toNat / 16), hexDigit (c.toNat % 16)]
    else [c]

def quote (s : String) : String := "\"" ++ String.ofList (s.toList.flatMap escape) ++ "\""

/-- A text with an unpaired half is written with one such half, and a name that is missing not at
    all. -/
def writeText : Text → String
  | .whole s => quote s
  | .halved => "\"\\ud800\""
  | .cut => ""

def writeNumber : Number → String
  | .integer n => toString n
  | .double x => x.write layout
  | .outOfRange => "1e999"

/-- The parts between brackets, separated by commas. -/
def enclose (opening closing : String) (parts : List String) : String :=
  opening ++ ",".intercalate parts ++ closing

mutual

/-- The document in one line, without blanks. -/
def compact : Node → String
  | .null => "null"
  | .bool b => if b then "true" else "false"
  | .number n => writeNumber n
  | .text t => writeText t
  | .array items => enclose "[" "]" (compactItems items)
  | .object members => enclose "\x7b" "\x7d" (compactMembers members)
  | .broken => ""

def compactItems : List Node → List String
  | [] => []
  | item :: items => compact item :: compactItems items

def compactMembers : List (Text × Node) → List String
  | [] => []
  | (name, value) :: members =>
    (writeText name ++ ":" ++ compact value) :: compactMembers members

end

/-- The end of a line and the indentation of the next. -/
def newLine (depth : Nat) : String := "\n" ++ String.ofList (List.replicate (2 * depth) ' ')

/-- The parts between brackets, each on its own line; without parts the brackets close at once. -/
def encloseLines (depth : Nat) (opening closing : String) (parts : List String) : String :=
  if parts.isEmpty then opening ++ closing
  else
    opening ++ newLine (depth + 1) ++ ("," ++ newLine (depth + 1)).intercalate parts ++
      newLine depth ++ closing

mutual

/-- The document at an indentation of `depth` steps of two blanks. -/
def indented (depth : Nat) : Node → String
  | .null => "null"
  | .bool b => if b then "true" else "false"
  | .number n => writeNumber n
  | .text t => writeText t
  | .array items => encloseLines depth "[" "]" (indentedItems (depth + 1) items)
  | .object members => encloseLines depth "\x7b" "\x7d" (indentedMembers (depth + 1) members)
  | .broken => ""

def indentedItems (depth : Nat) : List Node → List String
  | [] => []
  | item :: items => indented depth item :: indentedItems depth items

def indentedMembers (depth : Nat) : List (Text × Node) → List String
  | [] => []
  | (name, value) :: members =>
    (writeText name ++ ": " ++ indented depth value) :: indentedMembers depth members

end

/-- The document with one part a line. -/
def pretty (node : Node) : String := indented 0 node

end CourseAdmission.Json
