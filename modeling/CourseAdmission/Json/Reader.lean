import CourseAdmission.Json.Token

/-!
Reading a JSON text as a document.

Tokens are taken one at a time; the open arrays and objects form a stack. At a token that does not
fit, the place where it stands becomes `broken`, and everything open is closed around it.
-/

namespace CourseAdmission.Json

open Document (Node Text)

/-- An array or object that is open, its parts with the last one first. -/
inductive Frame where
  | array (items : List Node)
  /-- The name is that of the member to come; it is `cut` while none has been read. -/
  | object (members : List (Text × Node)) (name : Text)

/-- What may come next. -/
inductive Expect where
  | value
  | itemOrEnd
  | afterItem
  | nameOrEnd
  | name
  | colon
  | afterMember
  deriving DecidableEq

inductive Reading where
  | inside (expect : Expect) (stack : List Frame)
  /-- The document is read; whether something follows it. -/
  | done (root : Node) (trailing : Bool)

/-- Closes everything open around a node. -/
def closeAround (node : Node) : List Frame → Node
  | [] => node
  | .array items :: stack => closeAround (.array (node :: items).reverse) stack
  | .object members name :: stack => closeAround (.object ((name, node) :: members).reverse) stack

namespace Reading

def start : Reading := .inside .value []

def breakOff (stack : List Frame) : Reading := .done (closeAround .broken stack) false

/-- Puts a complete node where a value is expected. -/
def place (node : Node) : List Frame → Reading
  | [] => .done node false
  | .array items :: stack => .inside .afterItem (.array (node :: items) :: stack)
  | .object members name :: stack =>
    .inside .afterMember (.object ((name, node) :: members) .cut :: stack)

/-- A token where a value is expected. -/
def placeToken (stack : List Frame) : Token → Reading
  | .null => place .null stack
  | .bool b => place (.bool b) stack
  | .number n => place (.number n) stack
  | .text t => place (.text t) stack
  | .openArray => .inside .itemOrEnd (.array [] :: stack)
  | .openObject => .inside .nameOrEnd (.object [] .cut :: stack)
  | _ => breakOff stack

def step : Reading → Token → Reading
  | .done root _, _ => .done root true
  | .inside expect stack, token =>
    match expect, token, stack with
    | .value, token, stack => placeToken stack token
    | .itemOrEnd, .closeArray, .array items :: stack => place (.array items.reverse) stack
    | .itemOrEnd, token, stack => placeToken stack token
    | .afterItem, .comma, stack => .inside .value stack
    | .afterItem, .closeArray, .array items :: stack => place (.array items.reverse) stack
    | .nameOrEnd, .text t, .object members _ :: stack => .inside .colon (.object members t :: stack)
    | .nameOrEnd, .closeObject, .object members _ :: stack => place (.object members.reverse) stack
    | .name, .text t, .object members _ :: stack => .inside .colon (.object members t :: stack)
    | .colon, .colon, stack => .inside .value stack
    | .afterMember, .comma, stack => .inside .name stack
    | .afterMember, .closeObject, .object members _ :: stack =>
      place (.object members.reverse) stack
    | _, _, stack => breakOff stack

/-- The document when no token is left. -/
def finish : Reading → Document
  | .done root trailing => ⟨root, !trailing⟩
  | .inside _ stack => ⟨closeAround .broken stack, false⟩

end Reading

/-- The document of a row of tokens. -/
def ofTokens (tokens : List Token) : Document := (tokens.foldl Reading.step .start).finish

/-- The document that a text holds. -/
def read (text : String) : Document := ofTokens (Token.ofText text)

end CourseAdmission.Json
