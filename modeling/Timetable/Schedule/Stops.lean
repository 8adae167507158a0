import Timetable.Schedule.Basic

namespace Timetable

variable {R : Type}

structure NewStop (R : Type) where
  id : Ident
  location : Location R
  name : Option String
  deriving Repr, Inhabited

namespace Schedule

def allStops (g : Schedule R) : List (Stop R) :=
  g.stops.values.mergeSort fun a b => a.index ≤ b.index

/-- Registers a stop after the others, unless its id is taken. -/
def addStop (g : Schedule R) (s : NewStop R) : Schedule R × Bool :=
  if g.stops.contains s.id then (g, false)
  else
    let stop := { id := s.id, location := s.location, index := g.stops.size }
    let g := { g with stops := g.stops.insert s.id stop }
    match s.name with
    | some name => (g.nameStop s.id name, true)
    | none => (g, true)

def addStops (g : Schedule R) : List (NewStop R) → Schedule R × Nat
  | [] => (g, 0)
  | s :: rest =>
    let (g, new) := g.addStop s
    let (g, count) := g.addStops rest
    (g, if new then count + 1 else count)

/-- The stops after the removed one move up. -/
def removeStop (g : Schedule R) (id : Ident) : Schedule R × Bool :=
  match g.stops[id]? with
  | none => (g, false)
  | some removed =>
    let stops := (g.stops.erase id).map fun _ s =>
      if removed.index < s.index then { s with index := s.index - 1 } else s
    ({ g with stops, stopNames := g.stopNames.erase id, version := g.version + 1 }, true)

/-- Moves a stop, which keeps its index; gives the stop as it was. -/
def moveStop (g : Schedule R) (id : Ident) (location : Location R) :
    Schedule R × Option (Stop R) :=
  match g.stops[id]? with
  | none => (g, none)
  | some stop => ({ g with stops := g.stops.insert id { stop with location } }, some stop)

def stopsIn [Scalar R] (g : Schedule R) (box : Box R) : List (Stop R) :=
  g.stops.values.filter fun s => box.contains s.location

/-- The stops within a radius of a centre, nearest first. -/
def stopsWithin [Geometry R] (g : Schedule R) (centre : Location R) (radius : R) :
    List (Stop R) :=
  let near := (g.stopsIn (Geometry.boxAround centre radius)).map fun s =>
    (Geometry.distance centre s.location, s)
  let within := near.filter fun e => Scalar.le e.1 radius
  (within.mergeSort fun a b => Scalar.le a.1 b.1).map (·.2)

end Schedule

end Timetable
