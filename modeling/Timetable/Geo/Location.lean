import Timetable.Scalar

namespace Timetable

/-- A point, in degrees. -/
structure Location (R : Type) where
  lat : R
  lon : R
  deriving Repr, Inhabited

/-- A closed box between two parallels and two meridians. -/
structure Box (R : Type) where
  south : R
  west : R
  north : R
  east : R
  deriving Repr, Inhabited

namespace Box

variable {R : Type} [Scalar R]

/-- The box with two opposite corners, given in either order. -/
def ofCorners (a b : Location R) : Box R :=
  { south := if Scalar.lt a.lat b.lat then a.lat else b.lat
    north := if Scalar.lt a.lat b.lat then b.lat else a.lat
    west := if Scalar.lt a.lon b.lon then a.lon else b.lon
    east := if Scalar.lt a.lon b.lon then b.lon else a.lon }

def contains (b : Box R) (p : Location R) : Bool :=
  Scalar.le b.south p.lat && Scalar.le p.lat b.north &&
    Scalar.le b.west p.lon && Scalar.le p.lon b.east

end Box

/-- Scalars with a way to measure between points: the distance of two points in metres, and a box
that holds every point within a radius of a centre. -/
class Geometry (R : Type) extends Scalar R where
  distance : Location R → Location R → R
  boxAround : Location R → R → Box R

end Timetable
