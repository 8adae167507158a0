import Timetable.Calendar.Date
import Timetable.Ident
import Timetable.Table

namespace Timetable

/-- A set of weekdays; bit 0 is Monday. -/
structure Weekdays where
  bits : BitVec 7
  deriving DecidableEq, Repr, Inhabited

namespace Weekdays

def none : Weekdays := ⟨0⟩

def insert (w : Weekdays) (d : Weekday) : Weekdays := ⟨w.bits ||| BitVec.twoPow 7 d.index⟩

def ofDays (ds : List Weekday) : Weekdays := ds.foldl insert none

def contains (w : Weekdays) (d : Weekday) : Bool := w.bits.getLsbD d.index

def isEmpty (w : Weekdays) : Bool := w.bits = 0

def workdays : Weekdays := ofDays [.monday, .tuesday, .wednesday, .thursday, .friday]

def weekend : Weekdays := ofDays [.saturday, .sunday]

def everyDay : Weekdays := ofDays Weekday.all

end Weekdays

inductive DateException where
  | added | removed
  deriving DecidableEq, Repr

/-- The dates of one service: a weekly pattern, which exceptions for single dates outweigh. -/
structure Service where
  id : Ident
  /-- First and last date of the weekly pattern; none for a service of exceptions alone. -/
  range : Option (Date × Date)
  weekdays : Weekdays
  exceptions : Table Date DateException

namespace Service

def weekly (id : Ident) (first last : Date) (weekdays : Weekdays) : Service :=
  { id, range := some (first, last), weekdays, exceptions := ∅ }

def onDates (id : Ident) (dates : List Date) : Service :=
  { id, range := none, weekdays := .none
    exceptions := Table.ofEntries (dates.map fun d => (d, .added)) }

/-- A later exception for a date replaces an earlier one. -/
def withException (s : Service) (d : Date) (e : DateException) : Service :=
  { s with exceptions := s.exceptions.insert d e }

def covers (s : Service) (d : Date) : Bool :=
  match s.range with
  | some (first, last) => first ≤ d && d ≤ last && s.weekdays.contains d.weekday
  | none => false

def runsOn (s : Service) (d : Date) : Bool :=
  match s.exceptions[d]? with
  | some .added => true
  | some .removed => false
  | none => s.covers d

/-- Whether one of the `count` dates from `d` on satisfies `p`. -/
def anyDate (p : Date → Bool) (d : Date) : Nat → Bool
  | 0 => false
  | count + 1 => p d || anyDate p ⟨d.number + 1⟩ count

/-- How many dates lie from `first` to `last`, the calendar's very last date left out. -/
def daysBetween (first last : Date) : Nat :=
  (min last.number (Date.last.number - 1) - first.number + 1).toNat

/-- Whether the service runs at all: on an added date, or on a date of its pattern. -/
def hasAnyDate (s : Service) : Bool :=
  if s.exceptions.toList.any fun e => e.2 = .added then true
  else
    match s.range with
    | none => false
    | some (first, last) =>
      if s.weekdays.isEmpty then false
      else
        anyDate (fun d => s.weekdays.contains d.weekday && s.runsOn d) first
          (daysBetween first last)

end Service

structure Calendar where
  services : Table Ident Service

namespace Calendar

/-- Of two services of one id the later counts. -/
def ofServices (services : List Service) : Calendar :=
  ⟨Table.ofEntries (services.map fun s => (s.id, s))⟩

/-- Adds a service; tells whether it replaced one of the same id. -/
def insert (c : Calendar) (s : Service) : Calendar × Bool :=
  (⟨c.services.insert s.id s⟩, c.services.contains s.id)

def service? (c : Calendar) (id : Ident) : Option Service := c.services[id]?

def isActive (c : Calendar) (id : Ident) (d : Date) : Bool :=
  match c.service? id with
  | some s => s.runsOn d
  | none => false

def hasDates (c : Calendar) (id : Ident) : Bool :=
  match c.service? id with
  | some s => s.hasAnyDate
  | none => false

def servicesOn (c : Calendar) (d : Date) : List Ident :=
  (c.services.toList.filter fun e => e.2.runsOn d).map (·.1)

end Calendar

end Timetable
