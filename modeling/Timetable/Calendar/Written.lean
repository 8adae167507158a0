import Timetable.Calendar.Date
import Timetable.Text.Scan

namespace Timetable

open Text

def padded (width n : Nat) : String :=
  let digits := Nat.repr n
  String.ofList (List.replicate (width - digits.length) '0') ++ digits

namespace Date

/-- The text of a year: four digits, or a sign and at least four. -/
def yearText (year : Int) : String :=
  if year < 0 then "-" ++ padded 4 year.natAbs
  else if year ≤ 9999 then padded 4 year.natAbs
  else "+" ++ padded 4 year.natAbs

def text (d : Date) : String :=
  let (month, day) := d.monthDay
  yearText d.year ++ "-" ++ padded 2 month ++ "-" ++ padded 2 day

def year? : List Char → Option (Int × List Char)
  | '-' :: cs => (digits? cs.length cs).map fun (n, rest) => (-n, rest)
  | '+' :: cs => (digits? cs.length cs).map fun (n, rest) => (n, rest)
  | cs => (digits? 4 cs).map fun (n, rest) => (n, rest)

/-- A hyphen and a number of one or two digits, with blanks before either. -/
def part? (cs : List Char) : Option (Nat × List Char) := do
  let cs ← expect? '-' (skipBlanks cs)
  digits? 2 (skipBlanks cs)

/-- The date that a whole text writes. Blanks may stand before each part and at the end. -/
def read? (cs : List Char) : Option Date := do
  let (year, cs) ← year? (skipBlanks cs)
  let (month, cs) ← part? cs
  let (day, cs) ← part? cs
  if skipBlanks cs = [] then ofYearMonthDay? year month day else none

def parse? (s : String) : Option Date := read? s.toList

end Date

/-- A point of time: a date and the nanoseconds since its midnight. -/
structure Instant where
  date : Date
  nanosecond : Nat
  deriving DecidableEq, Repr, Inhabited

namespace Instant

def nanosecondsPerSecond : Nat := 1000000000

def noon (d : Date) : Instant := ⟨d, 12 * 3600 * nanosecondsPerSecond⟩

/-- Whether an instant is later than the midnight that begins a date. -/
def isAfterStartOf (i : Instant) (d : Date) : Bool :=
  d < i.date || (i.date = d && 0 < i.nanosecond)

/-- The fraction of a second after the point, in nanoseconds; further digits are dropped. -/
def fraction? : List Char → Option Nat
  | [] => some 0
  | '.' :: cs =>
    if cs ≠ [] ∧ cs.all Char.isDigit then
      some (decimal ((cs ++ List.replicate 9 '0').take 9))
    else none
  | _ => none

/-- A time of day, as nanoseconds since midnight; a minute may have a leap second. -/
def timeOfDay? (cs : List Char) : Option Nat := do
  let (hour, cs) ← digits? 2 cs
  let cs ← expect? ':' cs
  let (minute, cs) ← digits? 2 cs
  let cs ← expect? ':' cs
  let (second, cs) ← digits? 2 cs
  let nanosecond ← fraction? cs
  if hour < 24 ∧ minute < 60 ∧ second ≤ 60 then
    some (((hour * 60 + minute) * 60 + second) * nanosecondsPerSecond + nanosecond)
  else none

/-- A date, the letter T, and a time of day. -/
def parse? (s : String) : Option Instant :=
  match s.toList.span (· ≠ 'T') with
  | (day, _ :: time) => do
    let date ← Date.read? day
    let nanosecond ← timeOfDay? time
    some ⟨date, nanosecond⟩
  | (_, []) => none

end Instant

end Timetable
