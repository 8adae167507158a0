import Timetable.Record.Decode

namespace Timetable

open Decode

structure VehicleReport where
  vehicle : Option Ident := none
  trip : Option Ident := none
  block : Option Ident := none
  serviceDate : Option Date := none
  /-- Milliseconds since the epoch; zero stands for a missing time. -/
  time : Int := 0
  lat : Option Float := none
  lon : Option Float := none
  distanceAlongBlock : Option Float := none
  /-- Seconds late, or early when negative. -/
  scheduleDeviation : Option Float := none
  phase : Option String := none
  status : Option String := none
  deriving Repr, Inhabited

namespace VehicleReport

def fieldNames : List String :=
  ["vehicle_id", "trip_id", "block_id", "service_date", "time_of_record", "current_location_lat",
    "current_location_lon", "distance_along_block", "schedule_deviation", "phase", "status"]

def ofFields (f : Fields) : Option VehicleReport := do
  let vehicle ← optional "vehicle_id" ident f
  let trip ← optional "trip_id" ident f
  let block ← optional "block_id" ident f
  let serviceDate ← optional "service_date" Decode.date f
  let time ← defaulted "time_of_record" 0 signed64 f
  let lat ← optional "current_location_lat" double f
  let lon ← optional "current_location_lon" double f
  let distanceAlongBlock ← optional "distance_along_block" double f
  let scheduleDeviation ← optional "schedule_deviation" double f
  let phase ← optional "phase" text f
  let status ← optional "status" text f
  some
    { vehicle, trip, block, serviceDate, time, lat, lon, distanceAlongBlock, scheduleDeviation
      phase, status }

def decode : Decoder VehicleReport := fun j => (Decode.fields fieldNames j).bind ofFields

end VehicleReport

inductive OccupancyStatus where
  | empty | manySeats | fewSeats | standingRoom | crushedStandingRoom | full | notAccepting
  deriving DecidableEq, Repr

namespace OccupancyStatus

def all : List OccupancyStatus :=
  [empty, manySeats, fewSeats, standingRoom, crushedStandingRoom, full, notAccepting]

def name : OccupancyStatus → String
  | empty => "EMPTY"
  | manySeats => "MANY_SEATS_AVAILABLE"
  | fewSeats => "FEW_SEATS_AVAILABLE"
  | standingRoom => "STANDING_ROOM_ONLY"
  | crushedStandingRoom => "CRUSHED_STANDING_ROOM_ONLY"
  | full => "FULL"
  | notAccepting => "NOT_ACCEPTING_PASSENGERS"

def decode : Decoder OccupancyStatus := choice (all.map fun s => (s.name, s))

end OccupancyStatus

structure OccupancyReport where
  vehicle : Ident
  route : Option Ident
  direction : Option String
  status : OccupancyStatus
  /-- Milliseconds since the epoch. -/
  timestamp : Int
  deriving DecidableEq, Repr

namespace OccupancyReport

def fieldNames : List String := ["vehicle_id", "route_id", "direction_id", "status", "timestamp"]

def ofFields (f : Fields) : Option OccupancyReport := do
  let vehicle ← required "vehicle_id" ident f
  let route ← optional "route_id" ident f
  let direction ← optional "direction_id" text f
  let status ← required "status" OccupancyStatus.decode f
  let timestamp ← required "timestamp" signed64 f
  some { vehicle, route, direction, status, timestamp }

def decode : Decoder OccupancyReport := fun j => (Decode.fields fieldNames j).bind ofFields

end OccupancyReport

end Timetable
