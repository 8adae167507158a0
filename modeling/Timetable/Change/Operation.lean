import Timetable.Change.Record

namespace Timetable

inductive ChangeOperation where
  /-- The trips and stops, by their bare ids. -/
  | deleteStopTimes (pairs : List (String × String))
  | addStopTimes
  | alterStopTimes
  | addTrip
  | modifyTrip
  | deleteTrip
  | addShape
  | deleteShape
  | changeStop
  | unsupported (table : FeedTable) (kind : ChangeKind)
  deriving DecidableEq, Repr

namespace ChangeOperation

def name : ChangeOperation → String
  | deleteStopTimes _ => "delete_stop_times"
  | addStopTimes => "add_stop_times"
  | alterStopTimes => "alter_stop_times"
  | addTrip => "add_trip"
  | modifyTrip => "modify_trip"
  | deleteTrip => "delete_trip"
  | addShape => "add_shape"
  | deleteShape => "delete_shape"
  | changeStop => "stop_change"
  | unsupported _ _ => "unsupported"

end ChangeOperation

/-- The trip and the stop that an entity names, if it names both. -/
def EntityDescriptor.stopTime? (e : EntityDescriptor) : Option (String × String) := do
  let trip ← e.trip
  let stop ← e.stop
  some (trip, stop)

namespace DateDescriptor

/-- Whether a descriptor covers a date: it is the date, or a range with both ends that holds it. -/
def covers (d : DateDescriptor) (today : Date) : Bool :=
  d.date = some today ||
    match d.first, d.last with
    | some first, some last => first ≤ today && today ≤ last
    | _, _ => false

end DateDescriptor

namespace ServiceChange

def operation (c : ServiceChange) : ChangeOperation :=
  match c.table, c.kind with
  | .stopTimes, .delete => .deleteStopTimes (c.entities.filterMap (·.stopTime?))
  | .stopTimes, .add => .addStopTimes
  | .stopTimes, .alter => .alterStopTimes
  | .trips, .add => .addTrip
  | .trips, .alter => .modifyTrip
  | .trips, .delete => .deleteTrip
  | .shapes, .add => .addShape
  | .shapes, .delete => .deleteShape
  | .stops, .alter => .changeStop
  | table, kind => .unsupported table kind

/-- Whether a change is well formed: it has dates; an addition has fields and no entities, an
alteration entities and one set of fields, a deletion entities alone. -/
def isValid (c : ServiceChange) : Bool :=
  !c.dates.isEmpty &&
    match c.kind with
    | .add => c.entities.isEmpty && !c.fields.isEmpty
    | .alter => !c.entities.isEmpty && c.fields.length = 1
    | .delete => !c.entities.isEmpty && c.fields.isEmpty

def holdsOn (c : ServiceChange) (today : Date) : Bool := c.dates.any (·.covers today)

end ServiceChange

end Timetable
