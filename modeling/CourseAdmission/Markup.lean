/-!
Pages as trees of elements.

Texts and values of attributes are escaped where the tree is written, so no text opens or closes an
element. `unescape` reads the escapes back.
-/

namespace CourseAdmission

inductive Markup where
  | text (content : String)
  /-- A style sheet or a script, which is written as it is. -/
  | verbatim (content : String)
  | element (name : String) (attributes : List (String × String)) (children : List Markup)
  /-- An element that has no content and no end. -/
  | void (name : String) (attributes : List (String × String))
  /-- An element that is closed where it begins. -/
  | closed (name : String) (attributes : List (String × String))

namespace Markup

/-- A character as it is written in a text: those that are markup are written as entities. -/
def escapeChar : Char → List Char
  | '&' => ['&', 'a', 'm', 'p', ';']
  | '<' => ['&', 'l', 't', ';']
  | '>' => ['&', 'g', 't', ';']
  | '"' => ['&', 'q', 'u', 'o', 't', ';']
  | '\x27' => ['&', '#', 'x', '2', '7', ';']
  | c => [c]

def escape (s : String) : String := String.ofList (s.toList.flatMap escapeChar)

/-- Reads a text from left to right; an ampersand that begins no entity stands for itself. -/
def unescapeChars : List Char → List Char
  | '&' :: 'a' :: 'm' :: 'p' :: ';' :: cs => '&' :: unescapeChars cs
  | '&' :: 'l' :: 't' :: ';' :: cs => '<' :: unescapeChars cs
  | '&' :: 'g' :: 't' :: ';' :: cs => '>' :: unescapeChars cs
  | '&' :: 'q' :: 'u' :: 'o' :: 't' :: ';' :: cs => '"' :: unescapeChars cs
  | '&' :: '#' :: 'x' :: '2' :: '7' :: ';' :: cs => '\x27' :: unescapeChars cs
  | c :: cs => c :: unescapeChars cs
  | [] => []

/-- The text with each entity read as the character that it stands for. -/
def unescape (s : String) : String := String.ofList (unescapeChars s.toList)

theorem unescapeChars_cons {c : Char} (h : c ≠ '&') (cs : List Char) :
    unescapeChars (c :: cs) = c :: unescapeChars cs := by
  conv => lhs; unfold unescapeChars
  split <;> simp_all

theorem unescapeChars_escapeChar_append (c : Char) (cs : List Char) :
    unescapeChars (escapeChar c ++ cs) = c :: unescapeChars cs := by
  unfold escapeChar
  split
  case h_6 hamp _ _ _ _ => exact unescapeChars_cons hamp cs
  all_goals rfl

theorem unescapeChars_flatMap_escapeChar (cs : List Char) :
    unescapeChars (cs.flatMap escapeChar) = cs := by
  induction cs with
  | nil => rfl
  | cons c cs ih => rw [List.flatMap_cons, unescapeChars_escapeChar_append, ih]

/-- What is escaped is read back as it was. -/
theorem unescape_escape (s : String) : unescape (escape s) = s := by
  rw [unescape, escape, String.toList_ofList, unescapeChars_flatMap_escapeChar, String.ofList_toList]

/-- An attribute with the blank in front of it. -/
def attributeText : String × String → String
  | (name, value) => " " ++ name ++ "=\"" ++ escape value ++ "\""

/-- The inside of a tag. -/
def tag (name : String) (attributes : List (String × String)) : String :=
  name ++ String.join (attributes.map attributeText)

mutual

/-- The text of a tree. -/
def render : Markup → String
  | text content => escape content
  | verbatim content => content
  | element name attributes children =>
    "<" ++ tag name attributes ++ ">" ++ renderAll children ++ "</" ++ name ++ ">"
  | void name attributes => "<" ++ tag name attributes ++ ">"
  | closed name attributes => "<" ++ tag name attributes ++ "/>"

def renderAll : List Markup → String
  | [] => ""
  | child :: children => child.render ++ renderAll children

end

def newline : Markup := text "\n"

/-- An element that holds a text only. -/
def label (name content : String) : Markup := element name [] [text content]

/-- Each of some elements on a line of its own. -/
def lines (elements : List Markup) : List Markup := elements.flatMap fun e => [e, newline]

/-- An element whose children stand on lines of their own. -/
def block (name : String) (attributes : List (String × String)) (children : List Markup) : Markup :=
  element name attributes (newline :: lines children)

/-- The row of a table. -/
def tableRow (cells : List Markup) : Markup := element "tr" [] cells

/-- A table of heads and rows. -/
def table (attributes : List (String × String)) (heads rows : List Markup) : Markup :=
  element "table" attributes
    [newline, element "thead" [] [element "tr" [] heads], newline, block "tbody" [] rows]

/-- A page that shows the elements of a body. -/
def page (head body : List Markup) : String :=
  "<!DOCTYPE html>\n" ++
    (block "html" [("lang", "en")] [block "head" [] head, block "body" [] body]).render

end Markup

end CourseAdmission
