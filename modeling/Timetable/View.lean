import Timetable.Schedule.Basic

namespace Timetable

structure View (R : Type) where
  trip? : Ident → Option (Trip R)
  block? : Ident → Option (Block R)
  route? : Ident → Option Route
  stop? : Ident → Option (Stop R)
  shape? : Ident → Option (Shape R)
  narrative? : Ident → Option TripNarrative
  /-- The known agencies, in the order of their registration. -/
  agencies : List String

variable {R : Type}

def Schedule.view (g : Schedule R) : View R :=
  { trip? := fun id => g.trips[id]?
    block? := fun id => g.blocks[id]?
    route? := fun id => g.routes[id]?
    stop? := fun id => g.stops[id]?
    shape? := fun id => g.shapes[id]?
    narrative? := fun id => g.tripNarratives[id]?
    agencies := g.agencyIds }

/-- The upper view, and beneath it the trips, blocks, routes and narratives of the lower one. Stops,
shapes and agencies come from the upper view alone. -/
def View.over (upper lower : View R) : View R :=
  { upper with
    trip? := fun id => (upper.trip? id).or (lower.trip? id)
    block? := fun id => (upper.block? id).or (lower.block? id)
    route? := fun id => (upper.route? id).or (lower.route? id)
    narrative? := fun id => (upper.narrative? id).or (lower.narrative? id) }

end Timetable
