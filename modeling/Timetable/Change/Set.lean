import Timetable.Schedule.Shapes
import Timetable.Schedule.StopTimes
import Timetable.Schedule.Stops

namespace Timetable

variable {R : Type}

/-- New calls for a trip, in place of all that it has. -/
structure TripModification (R : Type) where
  trip : Ident
  stopTimes : List (StopTime R)
  deriving Repr

structure TripChanges (R : Type) where
  deleted : List Ident := []
  modified : List (TripModification R) := []
  added : List (Trip R) := []
  deriving Repr

namespace TripChanges

def empty : TripChanges R := {}

def size (s : TripChanges R) : Nat := s.deleted.length + s.modified.length + s.added.length

def delete (s : TripChanges R) (id : Ident) : TripChanges R :=
  { s with deleted := s.deleted ++ [id] }

/-- Of several modifications of a trip the first counts. -/
def modify (s : TripChanges R) (m : TripModification R) : TripChanges R :=
  if s.modified.any fun n => n.trip = m.trip then s
  else { s with modified := s.modified ++ [m] }

def add (s : TripChanges R) (t : Trip R) : TripChanges R := { s with added := s.added ++ [t] }

def ofLists (deleted : List Ident) (modified : List (TripModification R)) (added : List (Trip R)) :
    TripChanges R :=
  added.foldl add (modified.foldl modify (deleted.foldl delete empty))

end TripChanges

structure ShapeChanges (R : Type) where
  added : List (Shape R) := []
  deleted : List Ident := []
  deriving Repr

namespace ShapeChanges

def empty : ShapeChanges R := {}

def size (s : ShapeChanges R) : Nat := s.added.length + s.deleted.length

def add (s : ShapeChanges R) (shape : Shape R) : ShapeChanges R :=
  { s with added := s.added ++ [shape] }

def delete (s : ShapeChanges R) (id : Ident) : ShapeChanges R :=
  { s with deleted := s.deleted ++ [id] }

end ShapeChanges

/-- New values for a stop; what is not given stays. -/
structure StopChange (R : Type) where
  stop : Ident
  name : Option String := none
  lat : Option R := none
  lon : Option R := none
  deriving Repr

structure StopChanges (R : Type) where
  changes : List (StopChange R) := []
  deriving Repr

namespace StopChanges

def empty : StopChanges R := {}

def size (s : StopChanges R) : Nat := s.changes.length

def add (s : StopChanges R) (c : StopChange R) : StopChanges R :=
  { s with changes := s.changes ++ [c] }

end StopChanges

namespace Schedule

/-- Deletes a trip, noting what would bring it back. -/
def deleteNoting [Zero R] (s : Schedule R × TripChanges R) (id : Ident) :
    Schedule R × TripChanges R :=
  match s.1.trips[id]? with
  | none => s
  | some t =>
    match s.1.deleteTrip id with
    | (g, true) => (g, s.2.add t)
    | (g, false) => (g, s.2)

def modifyNoting [Zero R] (s : Schedule R × TripChanges R) (m : TripModification R) :
    Schedule R × TripChanges R :=
  match s.1.trips[m.trip]? with
  | none => s
  | some t =>
    match s.1.replaceStopTimes m.trip (m.stopTimes.map (·.toCall)) with
    | (g, true) => (g, s.2.modify { trip := m.trip, stopTimes := t.stopTimes })
    | (g, false) => (g, s.2)

def addNoting [Zero R] (s : Schedule R × TripChanges R) (t : Trip R) :
    Schedule R × TripChanges R :=
  match s.1.addTrip t none with
  | (g, .ok true) => (g, s.2.delete t.id)
  | (g, _) => (g, s.2)

/-- Deletes, then modifies, then adds trips. -/
def applyTrips [Zero R] (g : Schedule R) (c : TripChanges R) : Schedule R × TripChanges R :=
  c.added.foldl addNoting (c.modified.foldl modifyNoting (c.deleted.foldl deleteNoting (g, .empty)))

/-- Stores a shape, noting the one that it replaces or that there was none. -/
def addShapeNoting [Geometry R] (s : Schedule R × ShapeChanges R) (shape : Shape R) :
    Schedule R × ShapeChanges R :=
  let g := (s.1.addShape shape).1
  match s.1.shapes[shape.id]? with
  | some former => (g, s.2.add former)
  | none => (g, s.2.delete shape.id)

def removeShapeNoting (s : Schedule R × ShapeChanges R) (id : Ident) :
    Schedule R × ShapeChanges R :=
  match s.1.shapes[id]? with
  | none => s
  | some former =>
    match s.1.removeShape id with
    | (g, true) => (g, s.2.add former)
    | (g, false) => (g, s.2)

def applyShapes [Geometry R] (g : Schedule R) (c : ShapeChanges R) : Schedule R × ShapeChanges R :=
  c.deleted.foldl removeShapeNoting (c.added.foldl addShapeNoting (g, .empty))

def renameNoting (s : Schedule R × StopChange R) (name : Option String) :
    Schedule R × StopChange R :=
  match name with
  | none => s
  | some name => (s.1.nameStop s.2.stop name, { s.2 with name := s.1.stopNames[s.2.stop]? })

/-- Moves a stop, noting its former place; a coordinate that is not given stays. -/
def moveNoting (s : Schedule R × StopChange R) (stop : Stop R) (lat lon : Option R) :
    Schedule R × StopChange R :=
  if lat.isNone && lon.isNone then s
  else
    match s.1.moveStop s.2.stop ⟨lat.getD stop.location.lat, lon.getD stop.location.lon⟩ with
    | (g, some _) =>
      (g, { s.2 with lat := some stop.location.lat, lon := some stop.location.lon })
    | (g, none) => (g, s.2)

def changeStopNoting (s : Schedule R × StopChanges R) (c : StopChange R) :
    Schedule R × StopChanges R :=
  match s.1.stops[c.stop]? with
  | none => s
  | some stop =>
    let (g, undo) := moveNoting (renameNoting (s.1, { stop := c.stop }) c.name) stop c.lat c.lon
    (g, s.2.add undo)

def applyStops (g : Schedule R) (c : StopChanges R) : Schedule R × StopChanges R :=
  c.changes.foldl changeStopNoting (g, .empty)

end Schedule

end Timetable
