import Timetable.ServiceSet
import Timetable.Trip.Basic

namespace Timetable

variable {R : Type}

/-- A trip of a configuration and the empty distance before it. -/
structure Leg (R : Type) where
  trip : Trip R
  gap : R
  deriving Repr, Inhabited

/-- The trips that one vehicle runs one after the other under a set of services, in running order.
-/
structure Configuration (R : Type) where
  block : Ident
  services : ServiceSet
  legs : List (Leg R)
  deriving Repr, Inhabited

/-- A trip at its place in a configuration: its number, the number of the block's first stop time
that is its own, and the distance from the start of the block to the start of the trip. -/
structure PlacedTrip (R : Type) extends Leg R where
  sequence : Nat
  firstStopTime : Nat
  start : R
  deriving Repr, Inhabited

structure BlockStopTime (R : Type) where
  stopTime : StopTime R
  trip : Ident
  blockSequence : Nat
  tripSequence : Nat
  distance : R
  deriving Repr, Inhabited

/-- Trips run in the order of their first departures, those without calls last, and then of their
ids. -/
def Trip.runsBefore (s t : Trip R) : Bool :=
  let key (t : Trip R) : Int := t.firstDeparture?.getD 2147483647
  key s < key t || (key s = key t && s.id.isAtMost t.id)

/-- The gap that a list of gaps by trip gives: the last one listed, zero for trips not listed. -/
def gapOf [Zero R] (gaps : List (Ident × R)) (trip : Ident) : R :=
  match gaps.reverse.find? fun g => g.1 = trip with
  | some g => g.2
  | none => 0

namespace Configuration

/-- Puts trips in running order, each with its gap; no trips form no configuration. -/
def build? [Zero R] (block : Ident) (services : ServiceSet) (gaps : List (Ident × R))
    (trips : List (Trip R)) : Option (Configuration R) :=
  if trips.isEmpty then none
  else
    let ordered := trips.mergeSort Trip.runsBefore
    some { block, services, legs := ordered.map fun t => ⟨t, gapOf gaps t.id⟩ }

/-- Places trips one after the other, from a given number, stop time and distance on. -/
def place [Zero R] [Add R] (sequence stopTime : Nat) (distance : R) :
    List (Leg R) → List (PlacedTrip R)
  | [] => []
  | leg :: legs =>
    let start := distance + leg.gap
    { leg with sequence, firstStopTime := stopTime, start } ::
      place (sequence + 1) (stopTime + leg.trip.calls.length) (start + leg.trip.totalDistance) legs

@[simp] theorem toLeg_place [Zero R] [Add R] (sequence stopTime : Nat) (distance : R)
    (legs : List (Leg R)) : (place sequence stopTime distance legs).map (·.toLeg) = legs := by
  fun_induction place sequence stopTime distance legs <;> simp_all

end Configuration

def PlacedTrip.blockStopTimes [Add R] (p : PlacedTrip R) : List (BlockStopTime R) :=
  p.trip.stopTimes.map fun s =>
    { stopTime := s, trip := p.trip.id, blockSequence := p.firstStopTime + s.sequence
      tripSequence := p.sequence, distance := p.start + s.distance }

namespace Configuration

variable [Zero R] [Add R]

def trips (c : Configuration R) : List (PlacedTrip R) := place 0 0 0 c.legs

def stopTimes (c : Configuration R) : List (BlockStopTime R) := c.trips.flatMap (·.blockStopTimes)

/-- The place of the first trip with an id. -/
def tripIndex? (c : Configuration R) (trip : Ident) : Option Nat :=
  c.legs.findIdx? fun leg => leg.trip.id = trip

def hasTrip (c : Configuration R) (trip : Ident) : Bool :=
  c.legs.any fun leg => leg.trip.id = trip

/-- The block's stop times of the first trip with an id: those from its own first one up to the
first one of the next trip. -/
def stopTimesOf? (c : Configuration R) (trip : Ident) : Option (List (BlockStopTime R)) := do
  let i ← c.tripIndex? trip
  let p ← c.trips[i]?
  let last := match c.trips[i + 1]? with
    | some next => next.firstStopTime
    | none => c.stopTimes.length
  some ((c.stopTimes.take last).drop p.firstStopTime)

def totalDistance (c : Configuration R) : R :=
  match c.trips.getLast? with
  | some p => p.start + p.trip.totalDistance
  | none => 0

def gap? (c : Configuration R) (trip : Ident) : Option R :=
  (c.legs.find? fun leg => leg.trip.id = trip).map (·.gap)

/-- The configuration of other trips under the same services: trips that it had keep their gaps,
and new ones have none. -/
def withTrips? (c : Configuration R) (trips : List (Trip R)) : Option (Configuration R) :=
  build? c.block c.services (c.legs.map fun leg => (leg.trip.id, leg.gap)) trips

/-- The routes of the trips, each once, in the order in which they first occur. -/
def routes (c : Configuration R) : List Ident := (c.legs.map (·.trip.route)).eraseDups

end Configuration

end Timetable
