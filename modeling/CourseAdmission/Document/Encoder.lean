import CourseAdmission.Document.Basic

/-!
Building documents from values.
-/

namespace CourseAdmission.Document.Node

def ofText (s : String) : Node := .text (.whole s)

def ofNat (n : Nat) : Node := .number (.integer n)

/-- A document has no numbers beyond the finite ones; `null` stands for them. -/
def ofDouble (x : Binary64) : Node := if x.isFinite then .number (.double x) else .null

def ofList {α : Type} (encode : α → Node) (values : List α) : Node := .array (values.map encode)

/-- An object with these members, in this order. -/
def ofMembers (members : List (String × Node)) : Node :=
  .object (members.map fun (name, value) => (.whole name, value))

/-- A member that is left out if there is no value. -/
def memberIfSome {α : Type} (name : String) (encode : α → Node) (value : Option α) :
    List (String × Node) :=
  value.toList.map fun value => (name, encode value)

end CourseAdmission.Document.Node
