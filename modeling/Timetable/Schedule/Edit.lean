import Timetable.Schedule.Shapes
import Timetable.Schedule.StopTimes
import Timetable.Schedule.Stops

namespace Timetable

variable {R : Type}

inductive Edit (R : Type) where
  | addAgency (id timezone : String)
  | addStop (stop : NewStop R)
  | addStops (stops : List (NewStop R))
  | removeStop (id : Ident)
  | moveStop (id : Ident) (location : Location R)
  | nameStop (id : Ident) (name : String)
  | addRoute (route collection : Ident)
  | narrateCollection (id : Ident) (narrative : CollectionNarrative)
  | addTrip (trip : Trip R) (narrative : Option TripNarrative)
  | updateTrip (trip : Trip R) (narrative : Option TripNarrative)
  | deleteTrip (id : Ident)
  | narrateTrip (id : Ident) (narrative : TripNarrative)
  | deleteStopTime (trip stop : Ident)
  | insertStopTime (trip stop : Ident) (arrival departure : Int) (distance : Option R)
  | updateStopTime (trip stop : Ident) (arrival departure : Option Int)
      (newArrival newDeparture : Int)
  | replaceStopTimes (trip : Ident) (calls : List (Call R))
  | addShape (shape : Shape R)
  | removeShape (id : Ident)
  | setTripShape (trip : Ident) (shape : Option Ident)

/-- The reply to an edit: whether it was done, how much of it, what was there before, or why it was
refused. -/
inductive Reply (R : Type) where
  | done (yes : Bool)
  | count (n : Nat)
  | former (stop : Option (Stop R))
  | refused (fault : Fault)

namespace Reply

def ofExcept : Except Fault Bool → Reply R
  | .ok yes => .done yes
  | .error e => .refused e

def isFailure : Reply R → Bool
  | .done yes => !yes
  | .count n => n = 0
  | .former stop => stop.isNone
  | .refused _ => true

end Reply

def Schedule.answering {α : Type} (f : α → Reply R) (r : Schedule R × α) : Schedule R × Reply R :=
  (r.1, f r.2)

namespace Schedule

variable [Geometry R]

def apply (g : Schedule R) : Edit R → Schedule R × Reply R
  | .addAgency id timezone => answering .done (g.addAgency id timezone)
  | .addStop stop => answering .done (g.addStop stop)
  | .addStops stops => answering .count (g.addStops stops)
  | .removeStop id => answering .done (g.removeStop id)
  | .moveStop id location => answering .former (g.moveStop id location)
  | .nameStop id name => (g.nameStop id name, .done true)
  | .addRoute route collection => answering .ofExcept (g.addRoute route collection)
  | .narrateCollection id n => (g.narrateCollection id n, .done true)
  | .addTrip t n => answering .ofExcept (g.addTrip t n)
  | .updateTrip t n => answering .ofExcept (g.updateTrip t n)
  | .deleteTrip id => answering .done (g.deleteTrip id)
  | .narrateTrip id n => (g.narrateTrip id n, .done true)
  | .deleteStopTime trip stop => answering .done (g.deleteStopTime trip stop)
  | .insertStopTime trip stop arrival departure distance =>
    answering .done (g.insertStopTime trip stop arrival departure distance)
  | .updateStopTime trip stop arrival departure newArrival newDeparture =>
    answering .done (g.updateStopTime trip stop arrival departure newArrival newDeparture)
  | .replaceStopTimes trip calls => answering .done (g.replaceStopTimes trip calls)
  | .addShape s => answering .done (g.addShape s)
  | .removeShape id => answering .done (g.removeShape id)
  | .setTripShape trip shape => answering .done (g.setTripShape trip shape)

def run (g : Schedule R) (edits : List (Edit R)) : Schedule R :=
  edits.foldl (fun g e => (g.apply e).1) g

/-- The schedules that edits lead to from the empty one. -/
def Reachable (g : Schedule R) : Prop := ∃ edits, empty.run edits = g

theorem run_append (g : Schedule R) (a b : List (Edit R)) : g.run (a ++ b) = (g.run a).run b :=
  List.foldl_append

theorem Reachable.apply {g : Schedule R} (h : g.Reachable) (e : Edit R) :
    (g.apply e).1.Reachable := by
  obtain ⟨edits, rfl⟩ := h
  exact ⟨edits ++ [e], run_append _ _ _⟩

/-- What holds of the empty schedule and is kept by every edit holds of every reachable one. -/
theorem Reachable.induction {P : Schedule R → Prop} (base : P empty)
    (step : ∀ g e, P g → P (g.apply e).1) {g : Schedule R} (h : g.Reachable) : P g := by
  obtain ⟨edits, rfl⟩ := h
  suffices ∀ (edits : List (Edit R)) (g : Schedule R), P g → P (g.run edits) from
    this edits empty base
  intro edits
  induction edits with
  | nil => exact fun _ hg => hg
  | cons e edits ih => exact fun g hg => ih _ (step g e hg)

end Schedule

end Timetable
