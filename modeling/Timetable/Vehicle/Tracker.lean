import Timetable.Vehicle.History
import Timetable.Vehicle.Occupancy
import Timetable.View

namespace Timetable

variable {R : Type}

/-- Where a vehicle is: its block, the service date, and the report that says so. -/
structure BlockLocation where
  block : Ident
  serviceDate : Date
  report : VehicleReport
  deriving Inhabited

inductive TrackerFault where
  | missingTime
  deriving DecidableEq, Repr

def TrackerFault.message : TrackerFault → String
  | missingTime => "vehicle location record has no record time"

structure Tracker where
  reports : Table Ident VehicleReport
  locations : Table Ident BlockLocation
  history : History
  occupancies : Occupancies

structure VehicleStatus where
  report : VehicleReport
  /-- Recent reports, oldest first. -/
  recent : List VehicleReport
  occupancy : Option OccupancyReport

namespace Tracker

def ofCapacity (capacity : Nat) : Tracker :=
  { reports := ∅, locations := ∅, history := .ofCapacity capacity, occupancies := ∅ }

instance : Inhabited Tracker := ⟨.ofCapacity 1⟩

/-- The trip of a name under the first agency that has one, and the block of that trip. -/
def findBlock (v : View R) (trip : Ident) : Option (Ident × Ident) :=
  v.agencies.findSome? fun agency =>
    let id := trip.withAgency agency
    (v.trip? id).map fun t => (id, t.block)

/-- A report with the block of its trip, when it has a trip and no block of its own. -/
def withBlock (v : View R) (r : VehicleReport) : VehicleReport :=
  match r.block, r.trip.bind (findBlock v) with
  | none, some (trip, block) => { r with trip := some trip, block := some block }
  | _, _ => r

def detach (t : Tracker) (vehicle : Ident) : Tracker :=
  { t with locations := t.locations.erase vehicle, history := t.history.clear vehicle }

def locate (t : Tracker) (vehicle block : Ident) (serviceDate : Date) (r : VehicleReport) :
    Tracker :=
  { t with
    history := t.history.add block r
    locations := t.locations.insert vehicle { block, serviceDate, report := r } }

/-- Places the vehicle of a report on the report's block, or takes it off its block. -/
def assign (t : Tracker) (r : VehicleReport) : Tracker :=
  match r.vehicle, r.block, r.serviceDate with
  | some vehicle, some block, some serviceDate => t.locate vehicle block serviceDate r
  | some vehicle, _, _ => t.detach vehicle
  | none, _, _ => t

def store (t : Tracker) (r : VehicleReport) : Tracker :=
  match r.vehicle with
  | some vehicle => { t with reports := t.reports.insert vehicle r }
  | none => t

/-- Handles a report; one without a time is refused. -/
def handle (v : View R) (t : Tracker) (r : VehicleReport) : Tracker × Except TrackerFault Unit :=
  if r.time = 0 then (t, .error .missingTime)
  else ((t.store r).assign (withBlock v r), .ok ())

/-- Handles reports one after the other; the answer is the first that was refused. -/
def handleAll (v : View R) (t : Tracker) : List VehicleReport → Tracker × Except TrackerFault Unit
  | [] => (t, .ok ())
  | r :: rs =>
    let (t, first) := t.handle v r
    let (t, others) := t.handleAll v rs
    match first with
    | .ok () => (t, others)
    | .error e => (t, .error e)

def reset (t : Tracker) (vehicle : Ident) : Tracker :=
  detach { t with reports := t.reports.erase vehicle } vehicle

def handleOccupancy (t : Tracker) (r : OccupancyReport) : Tracker :=
  { t with occupancies := t.occupancies.add r }

def resetOccupancy (t : Tracker) (vehicle : Ident) : Tracker :=
  { t with occupancies := t.occupancies.clear vehicle }

def status? (t : Tracker) (vehicle : Ident) : Option VehicleStatus :=
  t.reports[vehicle]?.map fun report =>
    { report, recent := t.history.reports vehicle, occupancy := t.occupancies.last? vehicle }

def statuses (t : Tracker) : List VehicleStatus :=
  t.reports.toList.map fun (vehicle, report) =>
    { report, recent := [], occupancy := t.occupancies.last? vehicle }

def location? (t : Tracker) (vehicle : Ident) : Option BlockLocation := t.locations[vehicle]?

def vehiclesOn (t : Tracker) (block : Ident) : List Ident :=
  (t.locations.toList.filter fun e => e.2.block = block).map (·.1)

inductive Event where
  | report (r : VehicleReport)
  | reports (rs : List VehicleReport)
  | reset (vehicle : Ident)
  | occupancy (r : OccupancyReport)
  | resetOccupancy (vehicle : Ident)

def step (v : View R) (t : Tracker) : Event → Tracker
  | .report r => (t.handle v r).1
  | .reports rs => (t.handleAll v rs).1
  | .reset vehicle => t.reset vehicle
  | .occupancy r => t.handleOccupancy r
  | .resetOccupancy vehicle => t.resetOccupancy vehicle

end Tracker

end Timetable
