import Timetable.Record.Decode
import Timetable.Registry.Basic

namespace Timetable

open Decode

structure CancelledTrip where
  trip : Ident
  route : Option Ident := none
  block : Option Ident := none
  serviceDate : Option Date := none
  status : Option String := none
  deriving DecidableEq, Repr

namespace CancelledTrip

def fieldNames : List String := ["trip_id", "route_id", "block_id", "service_date", "status"]

def ofFields (f : Fields) : Option CancelledTrip := do
  let trip ← required "trip_id" ident f
  let route ← optional "route_id" ident f
  let block ← optional "block_id" ident f
  let serviceDate ← optional "service_date" date f
  let status ← optional "status" text f
  some { trip, route, block, serviceDate, status }

def decode : Decoder CancelledTrip := fun j => (fields fieldNames j).bind ofFields

end CancelledTrip

abbrev CancelledTrips := Registry CancelledTrip

namespace CancelledTrips

/-- Of two entries for one trip the later counts. -/
def ofList (trips : List CancelledTrip) : CancelledTrips :=
  Table.ofEntries (trips.map fun t => (t.trip, t))

def add (s : CancelledTrips) (t : CancelledTrip) : CancelledTrips := s.insert t.trip t

end CancelledTrips

end Timetable
