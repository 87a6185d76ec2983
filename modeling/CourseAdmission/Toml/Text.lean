import CourseAdmission.Json.Token
import CourseAdmission.Toml.Scanner

/-!
Blanks, comments, texts and keys of TOML.
-/

namespace CourseAdmission.Toml

open Scanner

/-- Characters that stand for themselves: a tab, and all but control characters. -/
def isPlain (c : Char) : Bool := c == '\t' || (decide (0x20 ≤ c.toNat) && c.toNat != 0x7F)

def isBlank (c : Char) : Bool := c == ' ' || c == '\t'

def blanks : Scanner Unit := discard (takeWhile isBlank)

def newline : Scanner Unit := char '\n' <|> word ['\r', '\n']

def comment : Scanner Unit := do
  char '#'
  discard (takeWhile isPlain)

/-- The end of a line, after blanks and a comment. -/
def lineEnd : Scanner Unit := do
  blanks
  discard (optional comment)
  newline <|> atEnd

/-- Blanks, comments and line ends between the items of an array. -/
def spacing : Scanner Unit := do
  blanks
  discard (many (do discard (optional comment); newline; blanks))

/-- The character with a code of so many hexadecimal digits. -/
def hexChar (digits : Nat) : Scanner Char := do
  let code ← hexDigits digits 0
  guard (decide (code < 0xD800 ∨ (0xDFFF < code ∧ code < 0x110000)))
  return Char.ofNat code
where
  hexDigits : Nat → Nat → Scanner Nat
    | 0, code => pure code
    | left + 1, code => do
      match Json.Token.hexDigit? (← satisfy fun _ => true) with
      | some digit => hexDigits left (code * 16 + digit)
      | none => failure

/-- What follows the backslash of an escape. -/
def escapeRest : Scanner Char := do
  match ← satisfy fun _ => true with
  | 'b' => return '\x08'
  | 't' => return '\t'
  | 'n' => return '\n'
  | 'f' => return '\x0c'
  | 'r' => return '\r'
  | '"' => return '"'
  | '\\' => return '\\'
  | 'u' => hexChar 4
  | 'U' => hexChar 8
  | _ => failure

/-- A text in double quotes on one line. -/
def basicText : Scanner String := do
  char '"'
  let chars ← many (satisfy (fun c => isPlain c && c != '"' && c != '\\') <|>
    (do char '\\'; escapeRest))
  char '"'
  return String.ofList chars

/-- A text in single quotes on one line; it has no escapes. -/
def literalText : Scanner String := do
  char '\''
  let chars ← takeWhile fun c => isPlain c && c != '\''
  char '\''
  return String.ofList chars

/-- A backslash at the end of a line: it and all blanks and line ends after it are left out. -/
def joinedLines : Scanner (List Char) := do
  char '\\'
  blanks
  newline
  discard (many (discard (satisfy isBlank) <|> newline))
  return []

/-- One piece of a text of several lines: a line end, an escape if the text has them, or a character
    that is no quote. -/
def linePiece (quote : Char) (escapes : Bool) : Scanner (List Char) :=
  (do newline; return ['\n']) <|>
  (do
    guard escapes
    joinedLines <|> (do char '\\'; return [← escapeRest])) <|>
  (do return [← satisfy fun c => isPlain c && c != quote && !(escapes && c == '\\')])

/-- The inside of a text of several lines and its closing quotes, in at most `limit` steps. Up to
    two quotes in a row belong to the text, also right before the closing three. -/
def linesRest (quote : Char) (escapes : Bool) : Nat → Scanner (List Char)
  | 0 => failure
  | limit + 1 => do
    let quotes := ((← get).takeWhile (· == quote)).length
    if 3 ≤ quotes then
      modify (·.drop (min quotes 5))
      return List.replicate (min quotes 5 - 3) quote
    else if 0 < quotes then
      modify (·.drop quotes)
      return List.replicate quotes quote ++ (← linesRest quote escapes limit)
    else
      let piece ← linePiece quote escapes
      return piece ++ (← linesRest quote escapes limit)

/-- A text of several lines in three quotes. A line end right after the opening quotes is left
    out. -/
def linesText (quote : Char) (escapes : Bool) : Scanner String := do
  word [quote, quote, quote]
  discard (optional newline)
  return String.ofList (← linesRest quote escapes ((← get).length + 1))

def text : Scanner String :=
  linesText '"' true <|> linesText '\'' false <|> basicText <|> literalText

def isBareKey (c : Char) : Bool := c.isAlphanum || c == '_' || c == '-'

/-- One part of a key. -/
def keyPart : Scanner String := do
  blanks
  let part ← basicText <|> literalText <|> (do return String.ofList (← takeWhile1 isBareKey))
  blanks
  return part

/-- How many brackets may be open, and how many parts a key may have, with one to spare. -/
def depthLimit : Nat := 79

/-- A key: the names of the tables that it leads through, and its own. -/
def key : Scanner (List String × String) := do
  let first ← keyPart
  let others ← many (do char '.'; keyPart)
  match (first :: others).reverse with
  | own :: path => if others.length < depthLimit then return (path.reverse, own) else failure
  | [] => failure

end CourseAdmission.Toml
