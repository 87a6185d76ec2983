import CourseAdmission.Json.Numeral

/-!
The tokens of a JSON text.

Characters are taken one at a time; `Scan` is the token in progress. A text that is no JSON gives
the tokens before the fault and then `invalid`.
-/

namespace CourseAdmission.Json

open Document (Text Number)

inductive Token where
  | openArray
  | closeArray
  | openObject
  | closeObject
  | colon
  | comma
  | null
  | bool (b : Bool)
  | number (n : Number)
  | text (t : Text)
  /-- No token: what follows is not looked at. -/
  | invalid
  deriving DecidableEq

namespace Token

/-- Where in a quoted text the scan is. -/
inductive QuotedStage where
  | plain
  | escape
  /-- In a four-digit escape: how many digits are left, and the value so far. -/
  | hex (left : Nat) (value : Nat)
  deriving DecidableEq

/-- A quoted text in progress, its characters with the last one first. -/
structure Quoted where
  stage : QuotedStage
  chars : List Char
  /-- The first half of a pair of escapes, if it came last. -/
  firstHalf : Option Nat
  /-- A half without the other was met. -/
  halved : Bool

namespace Quoted

def empty : Quoted := ⟨.plain, [], none, false⟩

/-- Takes a character. A first half that waits for the second is alone then. -/
def push (q : Quoted) (c : Char) : Quoted :=
  { stage := .plain
    chars := c :: q.chars
    firstHalf := none
    halved := q.halved || q.firstHalf.isSome }

/-- Takes a code unit of 16 bits: a character, or a half of one. -/
def pushUnit (q : Quoted) (unit : Nat) : Quoted :=
  if 0xD800 ≤ unit ∧ unit < 0xDC00 then
    { stage := .plain
      chars := q.chars
      firstHalf := some unit
      halved := q.halved || q.firstHalf.isSome }
  else if 0xDC00 ≤ unit ∧ unit < 0xE000 then
    match q.firstHalf with
    | some first =>
      { stage := .plain
        chars := Char.ofNat (0x10000 + (first - 0xD800) * 0x400 + (unit - 0xDC00)) :: q.chars
        firstHalf := none
        halved := q.halved }
    | none => { q with stage := .plain, halved := true }
  else q.push (Char.ofNat unit)

/-- The text at its closing quote. -/
def finish (q : Quoted) : Text :=
  if q.halved || q.firstHalf.isSome then .halved else .whole (String.ofList q.chars.reverse)

end Quoted

/-- The characters that stand for another one behind a backslash. -/
def escaped? : Char → Option Char
  | '"' => some '"'
  | '\\' => some '\\'
  | '/' => some '/'
  | 'b' => some '\x08'
  | 'f' => some '\x0c'
  | 'n' => some '\n'
  | 'r' => some '\r'
  | 't' => some '\t'
  | _ => none

def hexDigit? (c : Char) : Option Nat :=
  if c.isDigit then some (c.toNat - '0'.toNat)
  else if 'a' ≤ c ∧ c ≤ 'f' then some (c.toNat - 'a'.toNat + 10)
  else if 'A' ≤ c ∧ c ≤ 'F' then some (c.toNat - 'A'.toNat + 10)
  else none

/-- The token in progress. -/
inductive Scan where
  | between
  /-- In a literal name: the next character, those behind it, and the token that they complete. -/
  | word (next : Char) (left : List Char) (token : Token)
  | number (draft : Numeral.Draft)
  | quoted (q : Quoted)
  /-- After a fault. -/
  | stopped

/-- A character between tokens: the token that it is, if it is one, and what is in progress then. -/
def begin (c : Char) : List Token × Scan :=
  if c = ' ' ∨ c = '\t' ∨ c = '\n' ∨ c = '\r' then ([], .between)
  else match c with
    | '[' => ([.openArray], .between)
    | ']' => ([.closeArray], .between)
    | '\x7b' => ([.openObject], .between)
    | '\x7d' => ([.closeObject], .between)
    | ':' => ([.colon], .between)
    | ',' => ([.comma], .between)
    | '"' => ([], .quoted .empty)
    | 'n' => ([], .word 'u' ['l', 'l'] .null)
    | 't' => ([], .word 'r' ['u', 'e'] (.bool true))
    | 'f' => ([], .word 'a' ['l', 's', 'e'] (.bool false))
    | c =>
      match Numeral.Draft.start? c with
      | some draft => ([], .number draft)
      | none => ([.invalid], .stopped)

/-- A character inside quotes. Control characters have to be escaped. -/
def stepQuoted (q : Quoted) (c : Char) : List Token × Scan :=
  match q.stage with
  | .plain =>
    if c = '"' then ([.text q.finish], .between)
    else if c = '\\' then ([], .quoted { q with stage := .escape })
    else if c.toNat < 0x20 then ([.invalid], .stopped)
    else ([], .quoted (q.push c))
  | .escape =>
    if c = 'u' then ([], .quoted { q with stage := .hex 4 0 })
    else match escaped? c with
      | some c => ([], .quoted (q.push c))
      | none => ([.invalid], .stopped)
  | .hex left value =>
    match hexDigit? c with
    | some digit =>
      let value := value * 16 + digit
      if left ≤ 1 then ([], .quoted (q.pushUnit value))
      else ([], .quoted { q with stage := .hex (left - 1) value })
    | none => ([.invalid], .stopped)

/-- One character more: the tokens that it completes, and what is in progress then. -/
def step : Scan → Char → List Token × Scan
  | .between, c => begin c
  | .word next left token, c =>
    if c = next then
      match left with
      | [] => ([token], .between)
      | next :: left => ([], .word next left token)
    else ([.invalid], .stopped)
  | .number draft, c =>
    match draft.next? c with
    | some draft => ([], .number draft)
    | none =>
      match draft.finish? with
      | some numeral =>
        -- a digit cannot follow a complete literal: after a leading zero it is a fault
        if c.isDigit then ([.invalid], .stopped)
        else
          let (tokens, scan) := begin c
          (.number numeral.number :: tokens, scan)
      | none => ([.invalid], .stopped)
  | .quoted q, c => stepQuoted q c
  | .stopped, _ => ([], .stopped)

/-- What is left of the token in progress at the end of the text. -/
def finish : Scan → List Token
  | .between => []
  | .word .. => [.invalid]
  | .number draft =>
    match draft.finish? with
    | some numeral => [.number numeral.number]
    | none => [.invalid]
  | .quoted _ => [.invalid]
  | .stopped => []

def scan (state : Scan) : List Char → List Token
  | [] => finish state
  | c :: cs =>
    let (tokens, state) := step state c
    tokens ++ scan state cs

/-- The tokens of a text. -/
def ofText (text : String) : List Token := scan .between text.toList

end Token

end CourseAdmission.Json
