import Timetable.Change.Operation
import Timetable.Change.Set
import Timetable.Calendar.Written

namespace Timetable

variable {R : Type}

/-- What became of a batch of changes. The first four count changes; `mutations` counts edits of
the schedule. -/
structure PatchReport where
  submitted : Nat := 0
  applied : Nat := 0
  failed : Nat := 0
  notApplicable : Nat := 0
  mutations : Nat := 0
  deriving DecidableEq, Repr, Inhabited

inductive PatchOutcome where
  | applied (mutations : Nat)
  | failed
  | notApplicable
  deriving DecidableEq, Repr

def PatchReport.add (r : PatchReport) : PatchOutcome → PatchReport
  | .applied n => { r with applied := r.applied + 1, mutations := r.mutations + n }
  | .failed => { r with failed := r.failed + 1 }
  | .notApplicable => { r with notApplicable := r.notApplicable + 1 }

structure PendingUndo (R : Type) where
  trips : TripChanges R := {}
  shapes : ShapeChanges R := {}
  stops : StopChanges R := {}

def PendingUndo.size (u : PendingUndo R) : Nat := u.trips.size + u.shapes.size + u.stops.size

structure Patcher (R : Type) where
  lastTimestamp : Option Int := none
  /-- The date from whose midnight on an unchanged feed is applied again. -/
  reapplyDate : Option Date := none
  pending : PendingUndo R := {}

instance : Inhabited (Patcher R) := ⟨{}⟩

/-- How the bare ids of trips and stops resolve against a schedule. -/
structure BareIds (R : Type) where
  trip : Schedule R → String → Ident
  stop : Schedule R → String → Ident

structure Patched (R : Type) where
  schedule : Schedule R
  pending : PendingUndo R

namespace Patched

variable [Zero R]

/-- Deletes the first stop time of a trip at a stop; tells whether there was one. -/
def deleteStopTime (p : Patched R) (trip stop : Ident) : Patched R × Bool :=
  match p.schedule.trips[trip]? with
  | none => (p, false)
  | some t =>
    match p.schedule.deleteStopTime trip stop with
    | (g, true) =>
      let trips := p.pending.trips.modify { trip, stopTimes := t.stopTimes }
      ({ schedule := g, pending := { p.pending with trips } }, true)
    | (g, false) => ({ p with schedule := g }, false)

def deleteStopTimes (ids : BareIds R) (p : Patched R) : List (String × String) → Patched R × Nat
  | [] => (p, 0)
  | (trip, stop) :: rest =>
    let (p, found) := p.deleteStopTime (ids.trip p.schedule trip) (ids.stop p.schedule stop)
    let (p, count) := deleteStopTimes ids p rest
    (p, if found then count + 1 else count)

/-- Applies one change: malformed changes and operations that are not carried out fail, and so does
a deletion that deletes nothing. -/
def applyChange (ids : BareIds R) (today : Date) (p : Patched R) (c : ServiceChange) :
    Patched R × PatchOutcome :=
  if !c.isValid then (p, .failed)
  else if !c.holdsOn today then (p, .notApplicable)
  else
    match c.operation with
    | .deleteStopTimes pairs =>
      match p.deleteStopTimes ids pairs with
      | (p, 0) => (p, .failed)
      | (p, n) => (p, .applied n)
    | _ => (p, .failed)

/-- Applies changes one after the other, whatever becomes of each. -/
def applyChanges (ids : BareIds R) (today : Date) (p : Patched R) (cs : List ServiceChange) :
    Patched R × PatchReport :=
  cs.foldl (fun (p, report) c =>
    let (p, outcome) := p.applyChange ids today c
    (p, report.add outcome)) (p, { submitted := cs.length })

end Patched

/-- Takes pending edits back, shapes first and trips last; tells how many were. -/
def Schedule.undo [Geometry R] (g : Schedule R) (u : PendingUndo R) : Schedule R × Nat :=
  let (g, shapes) := g.applyShapes u.shapes
  let (g, stops) := g.applyStops u.stops
  let (g, trips) := g.applyTrips u.trips
  (g, shapes.size + stops.size + trips.size)

namespace Patcher

/-- Whether a feed is to be applied: the first one unless it is empty, then any newer one, and one
of the same time once the midnight after its last application has passed. -/
def accepts (p : Patcher R) (now : Instant) (feed : ChangeFeed) : Bool :=
  match p.lastTimestamp with
  | none => !feed.changes.isEmpty
  | some last =>
    last < feed.timestamp ||
      (last = feed.timestamp && p.reapplyDate.any fun d => now.isAfterStartOf d)

def applyChanges [Zero R] (p : Patcher R) (ids : BareIds R) (today : Date) (g : Schedule R)
    (cs : List ServiceChange) : Patcher R × Schedule R × PatchReport :=
  let (patched, report) := Patched.applyChanges ids today ⟨g, p.pending⟩ cs
  ({ p with pending := patched.pending }, patched.schedule, report)

/-- Takes everything pending back; tells how much that was. -/
def revert [Geometry R] (p : Patcher R) (g : Schedule R) : Patcher R × Schedule R × Nat :=
  let (g, count) := g.undo p.pending
  ({ p with pending := {} }, g, count)

/-- What applying a feed came to: how many edits were taken back, and what became of the changes. -/
structure FeedResult where
  reverted : Nat
  report : PatchReport
  deriving DecidableEq, Repr

/-- Applies a feed in place of the one before; nothing when it is skipped. -/
def applyFeed [Geometry R] (p : Patcher R) (ids : BareIds R) (now : Instant) (g : Schedule R)
    (feed : ChangeFeed) : Patcher R × Schedule R × Option FeedResult :=
  if p.accepts now feed then
    let (p, g, reverted) := p.revert g
    let (p, g, report) := p.applyChanges ids now.date g feed.changes
    ({ p with lastTimestamp := some feed.timestamp, reapplyDate := now.date.next? }, g,
      some { reverted, report })
  else (p, g, none)

end Patcher

end Timetable
