import Timetable.Schedule.Edit

namespace Timetable

variable {R : Type}

/-- A schedule and the copy of its stops in which locations are looked up. -/
structure Charted (R : Type) where
  schedule : Schedule R
  chart : List (Stop R)

namespace Charted

def empty : Charted R := { schedule := .empty, chart := [] }

def ofSchedule (g : Schedule R) : Charted R := { schedule := g, chart := g.allStops }

/-- What an edit of stops leads to: they are copied once it is done, unless it did nothing. -/
def recharted (c : Charted R) (r : Schedule R × Reply R) : Charted R × Reply R :=
  (if r.2.isFailure then { c with schedule := r.1 } else ofSchedule r.1, r.2)

/-- Removes a stop, moving the later ones up one by one. -/
def removeStop (c : Charted R) (id : Ident) : Charted R × Reply R :=
  match c.schedule.stops[id]? with
  | none => (c, .done false)
  | some removed =>
    let g := c.schedule
    let rest := g.stops.erase id
    let later := rest.values.filter fun s => removed.index < s.index
    let stops := later.foldl (fun t s => t.insert s.id { s with index := s.index - 1 }) rest
    let h := { g with stops, stopNames := g.stopNames.erase id, version := g.version + 1 }
    (ofSchedule h, .done true)

variable [Geometry R]

def apply (c : Charted R) (e : Edit R) : Charted R × Reply R :=
  match e with
  | .removeStop id => c.removeStop id
  | .addStop _ | .addStops _ | .moveStop _ _ => c.recharted (c.schedule.apply e)
  | _ => ({ c with schedule := (c.schedule.apply e).1 }, (c.schedule.apply e).2)

def run (c : Charted R) (edits : List (Edit R)) : Charted R :=
  edits.foldl (fun c e => (c.apply e).1) c

/-- The stops in a closed box, where `locate` looks up a box in the chart. -/
def stopsIn (locate : List (Stop R) → Box R → List (Stop R)) (c : Charted R) (box : Box R) :
    List (Stop R) :=
  locate c.chart box

end Charted

end Timetable
