import CourseAdmission.Decimal.Layout
import CourseAdmission.Decimal.Literal
import CourseAdmission.Text.Blank
import CourseAdmission.Time.Calendar

/-!
Points in time, in universal time, and their texts.

A text has a date, a time and an offset from universal time; blanks may stand around numbers. The
sixtieth second of a minute is a leap second.
-/

namespace CourseAdmission

open Calendar

/-- How many nanoseconds a second has. -/
def nanosPerSecond : Nat := 1000000000

structure Instant where
  date : Date
  hour : Nat
  minute : Nat
  second : Nat
  nanosecond : Nat
  validDate : date.Valid
  validTime : hour < 24 ∧ minute < 60 ∧ second ≤ 60 ∧ nanosecond < nanosPerSecond
  deriving DecidableEq

namespace Instant

/-- A number with at least so many digits. -/
def padded (width n : Nat) : String :=
  let digits := toString n
  zeros (width - digits.length) ++ digits

/-- Years of four digits stand as they are, others have a sign. -/
def yearText (year : Int) : String :=
  if 0 ≤ year ∧ year ≤ 9999 then padded 4 year.natAbs
  else (if year < 0 then "-" else "+") ++ padded 4 year.natAbs

def dateText (t : Instant) : String :=
  yearText t.date.year ++ "-" ++ padded 2 t.date.month ++ "-" ++ padded 2 t.date.day

def timeText (t : Instant) : String :=
  padded 2 t.hour ++ ":" ++ padded 2 t.minute ++ ":" ++ padded 2 t.second

/-- The fraction of the second in three, six or nine digits, as few as it takes. -/
def fractionText (t : Instant) : String :=
  if t.nanosecond = 0 then ""
  else if t.nanosecond % 1000000 = 0 then "." ++ padded 3 (t.nanosecond / 1000000)
  else if t.nanosecond % 1000 = 0 then "." ++ padded 6 (t.nanosecond / 1000)
  else "." ++ padded 9 t.nanosecond

/-- The point in time with this text for the offset of universal time. -/
def toText (t : Instant) (offset : String) : String :=
  t.dateText ++ "T" ++ t.timeText ++ t.fractionText ++ offset

/-- The point in time to the second, for a reader. -/
def display (t : Instant) : String := t.dateText ++ " " ++ t.timeText ++ " UTC"

/-- A time of day `minutes` minutes before this one, with the date that it falls on. -/
def moveBack (date : Date) (minuteOfDay : Nat) (minutes : Int) : Date × Nat :=
  let moved := (minuteOfDay : Int) - minutes
  if moved < 0 then (date.previous, (moved + 1440).toNat)
  else if moved < 1440 then (date, moved.toNat)
  else (date.next, (moved - 1440).toNat)

/-- The point in time at a local date and time, `offset` minutes ahead of universal time. -/
def ofLocal? (date : Date) (hour minute second nanosecond : Nat) (offset : Int) : Option Instant :=
  if date.Valid ∧ hour < 24 ∧ minute < 60 then
    let (date, minuteOfDay) := moveBack date (hour * 60 + minute) offset
    if h : date.Valid ∧ minuteOfDay / 60 < 24 ∧ minuteOfDay % 60 < 60 ∧ second ≤ 60 ∧
        nanosecond < nanosPerSecond then
      some ⟨date, minuteOfDay / 60, minuteOfDay % 60, second, nanosecond, h.1, h.2⟩
    else none
  else none

/-- The point in time so many nanoseconds after the beginning of the year 1970. -/
def ofUnixTime? (nanoseconds : Nat) : Option Instant :=
  let seconds := nanoseconds / nanosPerSecond
  let date := Date.later (seconds / 86400) ⟨1970, 1, 1⟩
  ofLocal? date (seconds % 86400 / 3600) (seconds % 3600 / 60) (seconds % 60)
    (nanoseconds % nanosPerSecond) 0

/-! Reading -/

/-- A number of up to `width` digits after blanks, and what follows it. -/
def number? (width : Nat) (cs : List Char) : Option (Nat × List Char) :=
  let cs := Text.dropBlanks cs
  let digits := (cs.takeWhile Char.isDigit).take width
  if digits.isEmpty then none else some (Decimal.ofDigits digits, cs.drop digits.length)

/-- A year: up to four digits, or a sign and any number of them. -/
def year? (cs : List Char) : Option (Int × List Char) :=
  match Text.dropBlanks cs with
  | '-' :: cs => signed cs fun n => -(n : Int)
  | '+' :: cs => signed cs fun n => n
  | cs => (number? 4 cs).map fun (n, cs) => ((n : Int), cs)
where
  signed (cs : List Char) (year : Nat → Int) : Option (Int × List Char) :=
    if (cs.head?.map Char.isDigit).getD false then
      (number? cs.length cs).map fun (n, cs) => (year n, cs)
    else none

/-- What follows a character after blanks. -/
def after? (c : Char) (cs : List Char) : Option (List Char) :=
  match Text.dropBlanks cs with
  | d :: cs => if d = c then some cs else none
  | [] => none

/-- What follows the mark between date and time. -/
def afterMark? : List Char → Option (List Char)
  | c :: cs => if c = 'T' ∨ c = 't' ∨ c = ' ' then some cs else none
  | [] => none

/-- The digits behind a point as nanoseconds; those from the tenth on are passed over. -/
def fraction? : List Char → Option (Nat × List Char)
  | '.' :: cs =>
    let digits := cs.takeWhile Char.isDigit
    let taken := digits.take 9
    let nanoseconds := Decimal.ofDigits (taken ++ List.replicate (9 - taken.length) '0')
    if digits.isEmpty then none else some (nanoseconds, cs.drop digits.length)
  | cs => some (0, cs)

/-- Two digits. -/
def twoDigits? : List Char → Option (Nat × List Char)
  | a :: b :: cs => if a.isDigit ∧ b.isDigit then some (Decimal.ofDigits [a, b], cs) else none
  | _ => none

/-- An offset of hours and minutes behind its sign, in minutes. Colons and blanks may stand between
    them. -/
def offsetDigits? (cs : List Char) : Option (Nat × List Char) := do
  let (hours, cs) ← twoDigits? cs
  let (minutes, cs) ← twoDigits? (cs.dropWhile fun c => c == ':' || Text.isBlank c)
  if hours < 24 ∧ minutes < 60 then some (hours * 60 + minutes, cs) else none

/-- The offset from universal time in minutes: `UTC`, `Z`, or a sign and digits. -/
def offset? (cs : List Char) : Option (Int × List Char) :=
  if (cs.take 3).map Char.toUpper = ['U', 'T', 'C'] then some (0, cs.drop 3)
  else match cs with
    | 'Z' :: cs => some (0, cs)
    | 'z' :: cs => some (0, cs)
    | '+' :: cs => (offsetDigits? cs).map fun (n, cs) => ((n : Int), cs)
    | '-' :: cs => (offsetDigits? cs).map fun (n, cs) => (-(n : Int), cs)
    | '−' :: cs => (offsetDigits? cs).map fun (n, cs) => (-(n : Int), cs)
    | _ => none

/-- The point in time that a text names. -/
def ofText? (text : String) : Option Instant := do
  let (year, cs) ← year? text.toList
  let (month, cs) ← number? 2 (← after? '-' cs)
  let (day, cs) ← number? 2 (← after? '-' cs)
  let cs ← afterMark? cs
  let (hour, cs) ← number? 2 cs
  let (minute, cs) ← number? 2 (← after? ':' cs)
  let (second, cs) ← number? 2 (← after? ':' cs)
  let (nanosecond, cs) ← fraction? cs
  let (offset, cs) ← offset? (Text.dropBlanks cs)
  if (Text.dropBlanks cs).isEmpty then
    ofLocal? ⟨year, month, day⟩ hour minute second nanosecond offset
  else none

end Instant

end CourseAdmission
