import Timetable.Block.Configuration
import Timetable.Table

namespace Timetable

variable {R : Type}

/-- A stop time of a block configuration. -/
structure Departure (R : Type) where
  configuration : Configuration R
  stopTime : BlockStopTime R
  deriving Repr, Inhabited

namespace Departure

def stop (d : Departure R) : Ident := d.stopTime.stopTime.stop

def time (d : Departure R) : Int := d.stopTime.stopTime.departure

def trip (d : Departure R) : Ident := d.stopTime.trip

def services (d : Departure R) : ServiceSet := d.configuration.services

/-- Earlier departures come first, and of two at one time the one of the smaller trip id. -/
def isBefore (a b : Departure R) : Bool :=
  a.time < b.time || (a.time = b.time && a.trip.isAtMost b.trip)

end Departure

/-- The departures from a stop under one set of services. -/
structure StopIndex (R : Type) where
  stop : Ident
  services : ServiceSet
  departures : List (Departure R)
  deriving Repr, Inhabited

namespace StopIndex

/-- The trip of the earliest departure. -/
def firstTrip? (i : StopIndex R) : Option Ident := i.departures.head?.map (·.trip)

/-- Splits the departures from a stop by services, in the order of the service sets. -/
def ofDepartures (stop : Ident) (ds : List (Departure R)) : List (StopIndex R) :=
  (Table.group (fun d => [d.services]) ds).toList.map fun (services, ds) =>
    { stop, services, departures := ds.mergeSort Departure.isBefore }

variable [Zero R] [Add R]

def departuresOf (c : Configuration R) : List (Departure R) := c.stopTimes.map fun s => ⟨c, s⟩

def ofConfigurations (cs : List (Configuration R)) : Table Ident (List (StopIndex R)) :=
  (Table.group (fun d => [d.stop]) (cs.flatMap departuresOf)).map ofDepartures

end StopIndex

end Timetable
