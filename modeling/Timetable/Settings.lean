import Timetable.Record.Decode

namespace Timetable

open Decode

structure Settings where
  /-- The candidate agencies for bare ids, in order; none means every known agency. -/
  agencies : List String := []
  historyCapacity : Nat := 20
  /-- Seconds between two fetches of the schedule changes. -/
  changeInterval : Nat := 60
  /-- Seconds between two fetches of the vehicle positions. -/
  vehicleInterval : Nat := 15
  /-- How many discovered agencies are worth a warning. -/
  agencyWarning : Nat := 3
  deriving DecidableEq, Repr, Inhabited

namespace Settings

def fieldNames : List String :=
  ["agency_ids", "vehicle_history_capacity", "schedule_patch_interval_secs",
    "vehicle_feed_interval_secs", "warn_agency_threshold"]

def ofFields (f : Fields) : Option Settings := do
  let standard : Settings := {}
  let agencies ← defaulted "agency_ids" standard.agencies (list text) f
  let historyCapacity ←
    defaulted "vehicle_history_capacity" standard.historyCapacity (unsigned 64) f
  let changeInterval ←
    defaulted "schedule_patch_interval_secs" standard.changeInterval (unsigned 64) f
  let vehicleInterval ←
    defaulted "vehicle_feed_interval_secs" standard.vehicleInterval (unsigned 64) f
  let agencyWarning ← defaulted "warn_agency_threshold" standard.agencyWarning (unsigned 64) f
  some { agencies, historyCapacity, changeInterval, vehicleInterval, agencyWarning }

def decode : Decoder Settings := fun j => (Decode.fields fieldNames j).bind ofFields

end Settings

end Timetable
