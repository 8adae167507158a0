import Timetable.Ident
import Timetable.Scalar

namespace Timetable

variable {R : Type}

/-- A visit to a stop. Times are seconds since midnight of the service day and may pass 24 hours;
the distance is measured along the trip. -/
structure Call (R : Type) where
  stop : Ident
  /-- The number that the published timetable gives; calls inserted later have none. -/
  published : Option Nat
  arrival : Int
  departure : Int
  distance : R
  deriving Repr, Inhabited

def Call.slack (c : Call R) : Int := c.departure - c.arrival

/-- A call and its number within a trip, counted from zero. -/
structure StopTime (R : Type) extends Call R where
  sequence : Nat
  deriving Repr, Inhabited

/-- The number of a call within the trip and the length of the trip follow from the calls. -/
structure Trip (R : Type) where
  id : Ident
  route : Ident
  block : Ident
  service : Ident
  shape : Option Ident
  direction : Option String
  calls : List (Call R)
  deriving Repr, Inhabited

namespace Trip

/-- A trip without shape and direction; without a block of its own it forms one of its name. -/
def ofCalls (id route : Ident) (block : Option Ident) (service : Ident) (calls : List (Call R)) :
    Trip R :=
  { id, route, block := block.getD id, service, shape := none, direction := none, calls }

def stopTimes (t : Trip R) : List (StopTime R) :=
  t.calls.zipIdx.map fun (c, i) => { c with sequence := i }

@[simp] theorem length_stopTimes (t : Trip R) : t.stopTimes.length = t.calls.length := by
  simp [stopTimes]

@[simp] theorem getElem?_stopTimes (t : Trip R) (i : Nat) :
    t.stopTimes[i]? = t.calls[i]?.map fun c => { c with sequence := i } := by
  simp [stopTimes, Function.comp_def]

@[simp] theorem toCall_stopTimes (t : Trip R) : t.stopTimes.map (·.toCall) = t.calls := by
  simp [stopTimes, Function.comp_def]

@[simp] theorem sequence_stopTimes (t : Trip R) :
    t.stopTimes.map (·.sequence) = List.range t.calls.length := by
  rw [stopTimes, List.map_map, List.range_eq_range', ← List.zipIdx_map_snd 0 t.calls]
  rfl

def firstDeparture? (t : Trip R) : Option Int := t.calls.head?.map (·.departure)

def lastArrival? (t : Trip R) : Option Int := t.calls.getLast?.map (·.arrival)

/-- The distance of the last call, zero when there is none. -/
def totalDistance [Zero R] (t : Trip R) : R :=
  match t.calls.getLast? with
  | some c => c.distance
  | none => 0

def withCalls (t : Trip R) (calls : List (Call R)) : Trip R := { t with calls }

end Trip

structure TripNarrative where
  headsign : Option String := none
  routeShortName : Option String := none
  tripShortName : Option String := none
  deriving DecidableEq, Repr, Inhabited

end Timetable
