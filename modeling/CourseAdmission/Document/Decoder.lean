import CourseAdmission.Document.Basic
import CourseAdmission.Document.Error

/-!
Decoders of single values. All of them refuse a part of a document that breaks off.
-/

namespace CourseAdmission.Document

/-- Reads a value from a part of a document. -/
abbrev Decoder (α : Type) : Type := Node → Except DecodeError α

namespace Decoder

/-- How many brackets may be open in a part that is set aside before it is read. -/
def nestingLimit : Nat := 127

def text : Decoder String
  | .text (.whole s) => .ok s
  | _ => .error .unreadable

def bool : Decoder Bool
  | .bool b => .ok b
  | _ => .error .unreadable

/-- Integers stand for the nearest double. -/
def double : Decoder Binary64
  | .number (.integer n) => .ok (.ofInt n)
  | .number (.double x) => .ok x
  | _ => .error .unreadable

def integer : Decoder Int
  | .number (.integer n) => .ok n
  | _ => .error .unreadable

/-- An integer from `low` to `high`. -/
def integerIn (low high : Int) : Decoder Int := fun node => do
  let n ← integer node
  if low ≤ n ∧ n ≤ high then return n else throw .unreadable

/-- A signed integer of 64 bits. -/
def signedWord : Decoder Int := integerIn (-(Word.limit 63 : Nat)) (Word.limit 63 - 1 : Nat)

/-- A natural number of so many bits. -/
def natural (bits : Nat) : Decoder Nat := fun node =>
  Int.toNat <$> integerIn 0 (Word.limit bits - 1 : Nat) node

/-- A count. -/
def count : Decoder Nat := natural 64

/-- A value, or `null` for none. -/
def nullable {α : Type} (decode : Decoder α) : Decoder (Option α)
  | .null => .ok none
  | node => some <$> decode node

def list {α : Type} (decode : Decoder α) : Decoder (List α)
  | .array items => items.mapM decode
  | _ => .error .unreadable

/-- A part of a document that is set aside, unless its brackets go deeper than `room` or it cannot
    be read. -/
def setAside (room : Nat) : Decoder Node := fun node =>
  if node.readable room then .ok node else .error .unreadable

end Decoder

end CourseAdmission.Document
