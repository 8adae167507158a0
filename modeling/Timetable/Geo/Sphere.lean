import Timetable.Geo.Location

namespace Timetable.Sphere

variable {R : Type} [Trigonometry R]

open Trigonometry

def radians (degrees : R) : R := degrees * (pi / 180.0)

/-- The mean radius of the earth in metres. -/
def earthRadius : R := 6371008.8

def square (x : R) : R := x * x

/-- The haversine of the angle between two points, as seen from the centre. -/
def haversine (p q : Location R) : R :=
  square (sin (radians (q.lat - p.lat) / 2.0)) +
    cos (radians p.lat) * cos (radians q.lat) * square (sin (radians (q.lon - p.lon) / 2.0))

/-- Metres along the great circle. -/
def distance (p q : Location R) : R := earthRadius * (2.0 * asin (sqrt (haversine p q)))

def metresPerDegree : R := 111320.0

/-- How much shorter a degree of longitude is at a latitude, kept away from zero near the poles. -/
def parallelScale (lat : R) : R := Scalar.atLeast 1e-6 (abs (cos (radians lat)))

/-- A box around a circle: its half height and half width are the radius in degrees. -/
def boxAround (centre : Location R) (radius : R) : Box R :=
  let lat := radius / metresPerDegree
  let lon := Scalar.atMost 180.0 (radius / (metresPerDegree * parallelScale centre.lat))
  Box.ofCorners ⟨centre.lat - lat, centre.lon - lon⟩ ⟨centre.lat + lat, centre.lon + lon⟩

instance : Geometry R where
  distance := distance
  boxAround := boxAround

end Timetable.Sphere
