import Timetable.BlockIndex.Basic
import Timetable.Change.Patch
import Timetable.Calendar.Service
import Timetable.Dynamic.Basic
import Timetable.Polling
import Timetable.Registry.Cancelled
import Timetable.Registry.Revenue
import Timetable.Resolve
import Timetable.Schedule.Edit
import Timetable.Settings
import Timetable.Vehicle.Tracker

namespace Timetable

structure Engine (R : Type) where
  settings : Settings
  calendar : Calendar
  now : Instant
  schedule : Schedule R
  index : BlockIndex R
  dynamic : Dynamic R
  patcher : Patcher R
  tracker : Tracker
  cancelled : CancelledTrips
  kneeling : VehicleSet
  stroller : VehicleSet
  revenue : RevenueIndex

namespace Engine

variable {R : Type} [Geometry R]

def start (settings : Settings) (calendar : Calendar) (now : Instant) (schedule : Schedule R) :
    Engine R :=
  { settings, calendar, now, schedule
    index := .build schedule
    dynamic := .empty
    patcher := {}
    tracker := .ofCapacity settings.historyCapacity
    cancelled := ∅
    kneeling := ∅
    stroller := ∅
    revenue := .load ∅ }

def restart (e : Engine R) : Engine R := start e.settings e.calendar e.now e.schedule

def today (e : Engine R) : Date := e.now.date

/-- What can be looked up: the schedule, and registered blocks beneath it. -/
def view (e : Engine R) : View R := e.schedule.view.over e.dynamic.view

/-- The resolver of bare ids, as it is once the schedule is `g`. -/
def resolverOver (e : Engine R) (g : Schedule R) : Resolver R :=
  { view := g.view.over e.dynamic.view
    hasDates := e.calendar.hasDates
    configured := e.settings.agencies }

def resolver (e : Engine R) : Resolver R := e.resolverOver e.schedule

def bareIds (e : Engine R) : BareIds R :=
  { trip := fun g => (e.resolverOver g).resolve .trip
    stop := fun g => (e.resolverOver g).resolve .stop }

def edit (e : Engine R) (ed : Edit R) : Engine R × Reply R :=
  let (schedule, reply) := e.schedule.apply ed
  ({ e with schedule }, reply)

/-- Renews the block index if the schedule's version has moved on. -/
def refresh (e : Engine R) : Engine R := { e with index := e.index.refresh e.schedule }

def refreshAfter (e : Engine R) (mutations : Nat) : Engine R :=
  if 0 < mutations then e.refresh else e

def register (e : Engine R) (run : BlockRun R) : Engine R :=
  { e with dynamic := e.dynamic.register e.schedule run }

def applyChanges (e : Engine R) (cs : List ServiceChange) : Engine R × PatchReport :=
  let (patcher, schedule, report) := e.patcher.applyChanges e.bareIds e.today e.schedule cs
  (refreshAfter { e with patcher, schedule } report.mutations, report)

def applyChange (e : Engine R) (c : ServiceChange) : Engine R × Bool :=
  let (e, report) := e.applyChanges [c]
  (e, 0 < report.applied)

def applyFeed (e : Engine R) (feed : ChangeFeed) : Engine R × Option PatchReport :=
  match e.patcher.applyFeed e.bareIds e.now e.schedule feed with
  | (patcher, schedule, some result) =>
    (refreshAfter { e with patcher, schedule } (result.reverted + result.report.mutations),
      some result.report)
  | (patcher, schedule, none) => ({ e with patcher, schedule }, none)

def revert (e : Engine R) : Engine R × Nat :=
  let (patcher, schedule, count) := e.patcher.revert e.schedule
  (refreshAfter { e with patcher, schedule } count, count)

def track (e : Engine R) (event : Tracker.Event) : Engine R :=
  { e with tracker := e.tracker.step e.view event }

/-- Tells the tracker of vehicle reports; the answer is the first that was refused. -/
def report (e : Engine R) (rs : List VehicleReport) : Engine R × Except TrackerFault Unit :=
  let (tracker, answer) := e.tracker.handleAll e.view rs
  ({ e with tracker }, answer)

/-- How often a feed is fetched that is polled for a time, at an interval in seconds. -/
def fetches (interval runFor : Nat) : Nat :=
  (Polling.spans (1000 * interval) runFor []).length

/-- Polls the schedule changes for a time, where the fetches give the listed feeds and then fail;
tells how many fetches there were. -/
def pollChanges (e : Engine R) (runFor : Nat) (fetched : List (Option ChangeFeed)) :
    Engine R × Nat :=
  let n := fetches e.settings.changeInterval runFor
  ((fetched.take n).foldl (fun e feed? =>
    match feed? with
    | some feed => (e.applyFeed feed).1
    | none => e) e, n)

def pollVehicles (e : Engine R) (runFor : Nat) (fetched : List (Option (List VehicleReport))) :
    Engine R × Nat :=
  let n := fetches e.settings.vehicleInterval runFor
  ((fetched.take n).foldl (fun e batch? =>
    match batch? with
    | some batch => e.track (.reports batch)
    | none => e) e, n)

end Engine

end Timetable
