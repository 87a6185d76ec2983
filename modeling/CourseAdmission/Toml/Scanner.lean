/-!
Scanners of text that either take characters from the front or fail.
-/

namespace CourseAdmission.Toml

/-- Reads a value from the front of a text; the characters left over are the state. -/
abbrev Scanner (α : Type) : Type := StateT (List Char) Option α

namespace Scanner

variable {α β : Type}

/-- The next character, which is not taken. -/
def peek : Scanner (Option Char) := do return (← get).head?

/-- Takes one character with a property. -/
def satisfy (p : Char → Bool) : Scanner Char
  | c :: cs => if p c then some (c, cs) else none
  | [] => none

def char (c : Char) : Scanner Unit := discard (satisfy (· == c))

/-- Takes these characters. -/
def word : List Char → Scanner Unit
  | [] => pure ()
  | c :: cs => do char c; word cs

/-- Takes characters as long as they have a property. -/
def takeWhile (p : Char → Bool) : Scanner (List Char) := fun cs =>
  some (cs.takeWhile p, cs.dropWhile p)

/-- Takes characters with a property, at least one. -/
def takeWhile1 (p : Char → Bool) : Scanner (List Char) := do
  return (← satisfy p) :: (← takeWhile p)

/-- Values one after the other, at most `limit` of them. -/
def upTo (p : Scanner α) : Nat → Scanner (List α)
  | 0 => pure []
  | limit + 1 => do
    match ← optional p with
    | some value => return value :: (← upTo p limit)
    | none => return []

/-- Values one after the other. Each takes a character at least, so the text bounds their number. -/
def many (p : Scanner α) : Scanner (List α) := fun cs => upTo p cs.length cs

/-- Values with separators between them. -/
def separated (p : Scanner α) (separator : Scanner β) : Scanner (List α) := do
  match ← optional p with
  | some value => return value :: (← many (do let _ ← separator; p))
  | none => return []

/-- Succeeds at the end of the text. -/
def atEnd : Scanner Unit
  | [] => some ((), [])
  | _ => none

end Scanner

end CourseAdmission.Toml
