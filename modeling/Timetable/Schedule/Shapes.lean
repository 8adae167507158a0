import Timetable.Schedule.Basic

namespace Timetable.Schedule

variable {R : Type}

/-- Stores a shape, in place of one of the same id; tells whether the id was new. -/
def addShape [Geometry R] (g : Schedule R) (s : Shape R) : Schedule R × Bool :=
  ({ g with shapes := g.shapes.insert s.id s.measured }, !g.shapes.contains s.id)

def removeShape (g : Schedule R) (id : Ident) : Schedule R × Bool :=
  ({ g with shapes := g.shapes.erase id }, g.shapes.contains id)

/-- The ids of the shapes that trips point at, in increasing order and each once. -/
def referencedShapes (g : Schedule R) : List Ident :=
  Ident.distinct (g.trips.values.filterMap (·.shape))

end Timetable.Schedule
