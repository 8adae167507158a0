import Timetable.Geo.Location
import Timetable.Ident

namespace Timetable

structure Shape (R : Type) where
  id : Ident
  points : List (Location R)
  distances : List R
  deriving Repr, Inhabited

namespace Shape

variable {R : Type}

/-- Distances along a line that starts at `total`, each point after the first adding its distance
from the point before. -/
def travelled [Add R] (distance : Location R → Location R → R) (total : R) :
    List (Location R) → List R
  | [] => []
  | [_] => [total]
  | p :: q :: rest => total :: travelled distance (total + distance p q) (q :: rest)

@[simp] theorem length_travelled [Add R] (distance : Location R → Location R → R) (total : R)
    (ps : List (Location R)) : (travelled distance total ps).length = ps.length := by
  fun_induction travelled distance total ps <;> simp_all

/-- Whether there is one distance for each point, and one after the first is positive. -/
def isMeasured [Scalar R] (s : Shape R) : Bool :=
  s.distances.length = s.points.length && (s.distances.drop 1).any (Scalar.lt 0 ·)

/-- Fills in the distances when they cannot stand, measuring between points by `distance`. -/
def measuredBy [Scalar R] (distance : Location R → Location R → R) (s : Shape R) : Shape R :=
  if s.isMeasured then s else { s with distances := travelled distance 0 s.points }

variable [Geometry R]

def measured (s : Shape R) : Shape R := s.measuredBy Geometry.distance

def ofPoints (id : Ident) (points : List (Location R)) : Shape R :=
  measured { id, points, distances := [] }

end Shape

end Timetable
