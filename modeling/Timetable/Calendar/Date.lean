import Std.Data.ExtTreeMap

namespace Timetable

/-- A date of the Gregorian calendar, as the number of days since 0000-01-01. -/
structure Date where
  number : Int
  deriving DecidableEq, Repr, Inhabited

inductive Weekday where
  | monday | tuesday | wednesday | thursday | friday | saturday | sunday
  deriving DecidableEq, Repr, Inhabited

namespace Weekday

def all : List Weekday := [monday, tuesday, wednesday, thursday, friday, saturday, sunday]

/-- Days since Monday. -/
def index : Weekday → Nat
  | monday => 0 | tuesday => 1 | wednesday => 2 | thursday => 3
  | friday => 4 | saturday => 5 | sunday => 6

end Weekday

namespace Date

instance : Ord Date where
  compare := compareOn number

instance : Std.TransOrd Date := inferInstanceAs (Std.TransCmp (compareOn number))

instance : Std.LawfulEqOrd Date where
  eq_of_compare {a b} h := by
    cases a with
    | mk m =>
      cases b with
      | mk n =>
        have h' : compare m n = .eq := h
        exact congrArg Date.mk (Std.LawfulEqCmp.eq_of_compare h')

instance : LT Date := ⟨fun a b => a.number < b.number⟩

instance : LE Date := ⟨fun a b => a.number ≤ b.number⟩

instance (a b : Date) : Decidable (a < b) := inferInstanceAs (Decidable (a.number < b.number))

instance (a b : Date) : Decidable (a ≤ b) := inferInstanceAs (Decidable (a.number ≤ b.number))

def isLeap (year : Int) : Bool :=
  year % 4 = 0 && (year % 100 ≠ 0 || year % 400 = 0)

/-- Days from the first of January of the year zero to that of `year`. -/
def daysBeforeYear (year : Int) : Int :=
  365 * year + (year + 3) / 4 - (year + 99) / 100 + (year + 399) / 400

def monthLengths (year : Int) : List Nat :=
  [31, if isLeap year then 29 else 28, 31, 30, 31, 30, 31, 31, 30, 31, 30, 31]

def firstYear : Int := -262143

def lastYear : Int := 262142

def daysBeforeMonth (year : Int) (month : Nat) : Nat :=
  ((monthLengths year).take (month - 1)).foldl Nat.add 0

/-- The date of a day of a month of a year, months and days counted from one. -/
def ofYearMonthDay? (year : Int) (month day : Nat) : Option Date :=
  if firstYear ≤ year ∧ year ≤ lastYear ∧ 1 ≤ month ∧ 1 ≤ day then
    match (monthLengths year)[month - 1]? with
    | some length =>
      if day ≤ length then
        some ⟨daysBeforeYear year + daysBeforeMonth year month + (day - 1 : Nat)⟩
      else none
    | none => none
  else none

def last : Date := ⟨daysBeforeYear (lastYear + 1) - 1⟩

/-- The next date, if the calendar goes on. -/
def next? (d : Date) : Option Date :=
  if d < last then some ⟨d.number + 1⟩ else none

def year (d : Date) : Int :=
  let guess := d.number * 400 / 146097
  if daysBeforeYear (guess + 1) ≤ d.number then guess + 1
  else if daysBeforeYear guess ≤ d.number then guess
  else guess - 1

/-- Splits a count of days into whole months of the given lengths and the days left over. -/
def splitMonths : List Nat → Nat → Nat × Nat
  | [], n => (0, n)
  | length :: rest, n =>
    if n < length then (0, n)
    else
      let (months, days) := splitMonths rest (n - length)
      (months + 1, days)

/-- Month and day of a date, counted from one. -/
def monthDay (d : Date) : Nat × Nat :=
  let (month, day) := splitMonths (monthLengths d.year) (d.number - daysBeforeYear d.year).toNat
  (month + 1, day + 1)

/-- The first of January of the year zero is a Saturday. -/
def weekday (d : Date) : Weekday :=
  match (d.number + 5) % 7 with
  | 0 => .monday | 1 => .tuesday | 2 => .wednesday | 3 => .thursday
  | 4 => .friday | 5 => .saturday | _ => .sunday

end Date

end Timetable
