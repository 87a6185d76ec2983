import CourseAdmission.Markup
import CourseAdmission.Report.Markdown

/-!
A bar chart of the shares of students who pass each rule.
-/

namespace CourseAdmission

namespace Chart

def barHeight : Nat := 30

/-- The height that a bar takes with the gap above it. -/
def barStep : Nat := barHeight + 10

/-- The width of a bar of a rule that all students pass. -/
def fullWidth : Nat := 400

/-- Where the bars begin, to the right of the labels. -/
def barStart : Nat := 260

def height (bars : Nat) : Nat := bars * barStep + 10

/-- Green from four fifths on, yellow from one half on, red below. -/
def colour (share : Binary64) : String :=
  if 8 / 10 ≤ share then "#22c55e"
  else if 1 / 2 ≤ share then "#eab308"
  else "#ef4444"

def barWidth (share : Binary64) : Nat := (share * Binary64.ofNat fullWidth).toCount

/-- Places on the chart are words of 64 bits. -/
def place (n : Nat) : String := toString (n % Word.limit 64)

/-- The attributes of a text that stands in the middle of a bar's height. -/
def textAttributes (x y : Nat) (size : String) (anchor : List (String × String)) :
    List (String × String) :=
  [("x", place x), ("y", place y), ("font-size", size), ("fill", "currentColor")] ++ anchor ++
    [("dominant-baseline", "middle")]

/-- The bar of the rule in this row, with its label and its share. -/
def bar (total row : Nat) (tally : RuleTally) : List Markup :=
  let top := row * barStep + 10
  let middle := top + barHeight / 2
  let share := Binary64.ofNat tally.passed / Binary64.ofNat total
  let width := barWidth share
  [.element "text" (textAttributes (barStart - 10) middle "14" [("text-anchor", "end")])
      [.text ("rule " ++ toString tally.index ++ " [" ++ tally.type.tag ++ "]")],
    .closed "rect" [("x", place barStart), ("y", place top), ("width", toString width),
      ("height", toString barHeight), ("fill", colour share), ("rx", "4")],
    .element "text" (textAttributes (barStart + width + 8) middle "12" [])
      [.text (rateText (share * 100))]]

/-- The bars of all rules, one below the other. -/
def bars (summary : Summary) : List Markup :=
  summary.rules.zipIdx.flatMap fun (tally, row) => bar summary.total row tally

/-- The chart of the rules of a course with some students. -/
def markup (summary : Summary) : Markup :=
  .element "svg"
    [("width", toString (barStart + fullWidth + 60)),
      ("height", toString (height summary.rules.length)),
      ("xmlns", "http://www.w3.org/2000/svg")]
    (.newline :: (bars summary).flatMap fun shape => [.text "  ", shape, .newline])

end Chart

end CourseAdmission
