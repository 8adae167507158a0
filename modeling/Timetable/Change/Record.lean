import Timetable.Record.Decode

namespace Timetable

open Decode

inductive FeedTable where
  | stops | routes | trips | stopTimes | shapes | transfers
  deriving DecidableEq, Repr

namespace FeedTable

def name : FeedTable → String
  | stops => "STOPS" | routes => "ROUTES" | trips => "TRIPS"
  | stopTimes => "STOP_TIMES" | shapes => "SHAPES" | transfers => "TRANSFERS"

def decode : Decoder FeedTable :=
  choice ([stops, routes, trips, stopTimes, shapes, transfers].map fun t => (t.name, t))

end FeedTable

inductive ChangeKind where
  | add | alter | delete
  deriving DecidableEq, Repr

namespace ChangeKind

def name : ChangeKind → String
  | add => "ADD" | alter => "ALTER" | delete => "DELETE"

def decode : Decoder ChangeKind := choice ([add, alter, delete].map fun k => (k.name, k))

end ChangeKind

/-- A single date, or a range by its first and last date. -/
structure DateDescriptor where
  date : Option Date := none
  first : Option Date := none
  last : Option Date := none
  deriving DecidableEq, Repr

/-- An existing entity, by the bare ids of the feed. -/
structure EntityDescriptor where
  agency : Option String := none
  route : Option String := none
  trip : Option String := none
  stop : Option String := none
  stopSequence : Option Nat := none
  shape : Option String := none
  service : Option String := none
  deriving DecidableEq, Repr

/-- The columns of an added or altered row. -/
structure FieldDescriptor where
  trip : Option String := none
  stop : Option String := none
  arrivalTime : Option String := none
  departureTime : Option String := none
  stopSequence : Option Nat := none
  shapeDistance : Option Float := none
  route : Option String := none
  service : Option String := none
  tripHeadsign : Option String := none
  direction : Option String := none
  block : Option String := none
  stopName : Option String := none
  stopLat : Option Float := none
  stopLon : Option Float := none
  shape : Option String := none
  shapePointLat : Option Float := none
  shapePointLon : Option Float := none
  shapePointSequence : Option Nat := none
  deriving Repr

structure ServiceChange where
  table : FeedTable
  kind : ChangeKind
  entities : List EntityDescriptor := []
  fields : List FieldDescriptor := []
  dates : List DateDescriptor := []
  deriving Repr

/-- All changes that hold as of a time. -/
structure ChangeFeed where
  timestamp : Int := 0
  changes : List ServiceChange := []
  deriving Repr

namespace DateDescriptor

def fieldNames : List String := ["date", "from", "to"]

def ofFields (f : Fields) : Option DateDescriptor := do
  let date ← optional "date" Decode.date f
  let first ← optional "from" Decode.date f
  let last ← optional "to" Decode.date f
  some { date, first, last }

def decode : Decoder DateDescriptor := fun j => (Decode.fields fieldNames j).bind ofFields

end DateDescriptor

namespace EntityDescriptor

def fieldNames : List String :=
  ["agency_id", "route_id", "trip_id", "stop_id", "stop_sequence", "shape_id", "service_id"]

def ofFields (f : Fields) : Option EntityDescriptor := do
  let agency ← optional "agency_id" text f
  let route ← optional "route_id" text f
  let trip ← optional "trip_id" text f
  let stop ← optional "stop_id" text f
  let stopSequence ← optional "stop_sequence" (unsigned 32) f
  let shape ← optional "shape_id" text f
  let service ← optional "service_id" text f
  some { agency, route, trip, stop, stopSequence, shape, service }

def decode : Decoder EntityDescriptor := fun j => (Decode.fields fieldNames j).bind ofFields

end EntityDescriptor

namespace FieldDescriptor

def fieldNames : List String :=
  ["trip_id", "stop_id", "arrival_time", "departure_time", "stop_sequence", "shape_dist_traveled",
    "route_id", "service_id", "trip_headsign", "direction_id", "block_id",
    "stop_name", "stop_lat", "stop_lon",
    "shape_id", "shape_pt_lat", "shape_pt_lon", "shape_pt_sequence"]

def ofFields (f : Fields) : Option FieldDescriptor := do
  let trip ← optional "trip_id" text f
  let stop ← optional "stop_id" text f
  let arrivalTime ← optional "arrival_time" text f
  let departureTime ← optional "departure_time" text f
  let stopSequence ← optional "stop_sequence" (unsigned 32) f
  let shapeDistance ← optional "shape_dist_traveled" double f
  let route ← optional "route_id" text f
  let service ← optional "service_id" text f
  let tripHeadsign ← optional "trip_headsign" text f
  let direction ← optional "direction_id" text f
  let block ← optional "block_id" text f
  let stopName ← optional "stop_name" text f
  let stopLat ← optional "stop_lat" double f
  let stopLon ← optional "stop_lon" double f
  let shape ← optional "shape_id" text f
  let shapePointLat ← optional "shape_pt_lat" double f
  let shapePointLon ← optional "shape_pt_lon" double f
  let shapePointSequence ← optional "shape_pt_sequence" (unsigned 32) f
  some
    { trip, stop, arrivalTime, departureTime, stopSequence, shapeDistance, route, service
      tripHeadsign, direction, block, stopName, stopLat, stopLon
      shape, shapePointLat, shapePointLon, shapePointSequence }

def decode : Decoder FieldDescriptor := fun j => (Decode.fields fieldNames j).bind ofFields

end FieldDescriptor

namespace ServiceChange

def fieldNames : List String :=
  ["table", "service_change_type", "affected_entity", "affected_field", "affected_dates"]

def ofFields (f : Fields) : Option ServiceChange := do
  let table ← required "table" FeedTable.decode f
  let kind ← required "service_change_type" ChangeKind.decode f
  let entities ← defaulted "affected_entity" [] (list EntityDescriptor.decode) f
  let fields ← defaulted "affected_field" [] (list FieldDescriptor.decode) f
  let dates ← defaulted "affected_dates" [] (list DateDescriptor.decode) f
  some { table, kind, entities, fields, dates }

def decode : Decoder ServiceChange := fun j => (Decode.fields fieldNames j).bind ofFields

end ServiceChange

namespace ChangeFeed

def fieldNames : List String := ["timestamp", "service_changes"]

def ofFields (f : Fields) : Option ChangeFeed := do
  let timestamp ← defaulted "timestamp" 0 signed64 f
  let changes ← defaulted "service_changes" [] (list ServiceChange.decode) f
  some { timestamp, changes }

def decode : Decoder ChangeFeed := fun j => (Decode.fields fieldNames j).bind ofFields

end ChangeFeed

end Timetable
