import Timetable.Table
import Timetable.Vehicle.Record

namespace Timetable

/-- A block and the latest reports from it, oldest first. -/
structure Trail where
  block : Ident
  reports : List VehicleReport
  deriving Inhabited

structure History where
  /-- How many reports are kept of a vehicle. -/
  capacity : Nat
  trails : Table Ident Trail

namespace History

/-- An empty history; at least one report is kept. -/
def ofCapacity (capacity : Nat) : History := { capacity := max capacity 1, trails := ∅ }

def reports (h : History) (vehicle : Ident) : List VehicleReport :=
  match h.trails[vehicle]? with
  | some t => t.reports
  | none => []

def block? (h : History) (vehicle : Ident) : Option Ident := h.trails[vehicle]?.map (·.block)

def reportsOn (h : History) (vehicle block : Ident) : List VehicleReport :=
  match h.trails[vehicle]? with
  | some t => if t.block = block then t.reports else []
  | none => []

/-- Adds a report at the end of a list, dropping the oldest one of a full list. -/
def addBounded (capacity : Nat) (reports : List VehicleReport) (r : VehicleReport) :
    List VehicleReport :=
  (if reports.length = capacity then reports.drop 1 else reports) ++ [r]

/-- Adds a report from a block; one that names no vehicle is ignored. -/
def add (h : History) (block : Ident) (r : VehicleReport) : History :=
  match r.vehicle with
  | none => h
  | some vehicle =>
    let reports := addBounded h.capacity (h.reportsOn vehicle block) r
    { h with trails := h.trails.insert vehicle { block, reports } }

def clear (h : History) (vehicle : Ident) : History :=
  { h with trails := h.trails.erase vehicle }

end History

end Timetable
