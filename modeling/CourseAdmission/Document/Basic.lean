import CourseAdmission.Binary64.Basic

/-!
Documents as trees.

Both formats are read into one kind of tree. A document that breaks off, or stops making sense, is
still a tree: the part that was read, closed at its end by `broken`. Decoding walks the tree from
left to right, so it meets a fault of the shape before the break exactly if that fault comes first
in the document.
-/

namespace CourseAdmission.Document

/-- A text or a name of a member. -/
inductive Text where
  | whole (s : String)
  /-- A text with one half of a pair of escapes that belong together. It can be passed over, not
      read. -/
  | halved
  /-- No text: the document breaks off where a name had to follow. -/
  | cut
  deriving DecidableEq, Inhabited

inductive Number where
  | integer (n : Int)
  | double (x : Binary64)
  /-- Beyond the greatest finite number. It can be passed over, not read. -/
  | outOfRange
  deriving DecidableEq, Inhabited

inductive Node where
  | null
  | bool (b : Bool)
  | number (n : Number)
  | text (t : Text)
  | array (items : List Node)
  | object (members : List (Text × Node))
  /-- The document breaks off here. -/
  | broken
  deriving Inhabited

namespace Node

mutual

/-- A part of a document that can be passed over: it does not break off. -/
def sound : Node → Bool
  | .array items => soundItems items
  | .object members => soundMembers members
  | .broken => false
  | _ => true

def soundItems : List Node → Bool
  | [] => true
  | item :: items => item.sound && soundItems items

def soundMembers : List (Text × Node) → Bool
  | [] => true
  | (_, value) :: members => value.sound && soundMembers members

end

/-- A name that can be read. -/
def readableName : Text → Bool
  | .whole _ => true
  | _ => false

mutual

/-- A part of a document that can be set aside to be read later: it does not break off, each of its
    texts and numbers can be read, and its brackets go no deeper than `room`. -/
def readable (room : Nat) : Node → Bool
  | .null => true
  | .bool _ => true
  | .number n => n != .outOfRange
  | .text t => readableName t
  | .array items => decide (0 < room) && readableItems (room - 1) items
  | .object members => decide (0 < room) && readableMembers (room - 1) members
  | .broken => false

def readableItems (room : Nat) : List Node → Bool
  | [] => true
  | item :: items => item.readable room && readableItems room items

def readableMembers (room : Nat) : List (Text × Node) → Bool
  | [] => true
  | (name, value) :: members =>
    readableName name && value.readable room && readableMembers room members

end

end Node

end CourseAdmission.Document

namespace CourseAdmission

/-- What was read of a text: one tree, and whether nothing follows it. -/
structure Document where
  root : Document.Node
  complete : Bool

end CourseAdmission
