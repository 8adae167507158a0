import Timetable.Schedule.Trips
import Timetable.Trip.Edit

namespace Timetable.Schedule

variable {R : Type}

/-- Stores a trip with the calls that `f` makes of its calls, unless `f` declines. -/
def editCalls [Zero R] (g : Schedule R) (trip : Ident)
    (f : List (Call R) → Option (List (Call R))) : Schedule R × Bool :=
  match g.editTrip trip fun t => (f t.calls).map t.withCalls with
  | (g, true) => (g.bump, true)
  | (g, false) => (g, false)

def deleteStopTime [Zero R] (g : Schedule R) (trip stop : Ident) : Schedule R × Bool :=
  g.editCalls trip (Calls.delete? stop)

def updateStopTime [Zero R] (g : Schedule R) (trip stop : Ident) (arrival departure : Option Int)
    (newArrival newDeparture : Int) : Schedule R × Bool :=
  g.editCalls trip (Calls.retime? stop arrival departure newArrival newDeparture)

def replaceStopTimes [Zero R] (g : Schedule R) (trip : Ident) (calls : List (Call R)) :
    Schedule R × Bool :=
  g.editCalls trip fun _ => some calls

/-- The step from a neighbouring stop to a point: the distance between them, but at least a metre;
a metre from an unknown stop. -/
def spacing [Geometry R] (g : Schedule R) (location : Location R) (neighbour : Ident) : R :=
  match g.stops[neighbour]? with
  | some s => Scalar.atLeast 1 (Geometry.distance s.location location)
  | none => 1

def insertStopTime [Geometry R] (g : Schedule R) (trip stop : Ident) (arrival departure : Int)
    (distance : Option R) : Schedule R × Bool :=
  match g.stops[stop]? with
  | none => (g, false)
  | some s =>
    g.editCalls trip fun calls =>
      some (Calls.insert (g.spacing s.location) stop arrival departure distance calls)

end Timetable.Schedule
