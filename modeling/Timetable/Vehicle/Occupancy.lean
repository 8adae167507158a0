import Timetable.Table
import Timetable.Vehicle.Record

namespace Timetable

abbrev Occupancies := Table Ident OccupancyReport

namespace Occupancies

/-- Of two reports the one with the later timestamp counts, and of two with the same timestamp the
one that came later. -/
def add (t : Occupancies) (r : OccupancyReport) : Occupancies :=
  match t[r.vehicle]? with
  | some current => if current.timestamp ≤ r.timestamp then t.insert r.vehicle r else t
  | none => t.insert r.vehicle r

def last? (t : Occupancies) (vehicle : Ident) : Option OccupancyReport := t[vehicle]?

def clear (t : Occupancies) (vehicle : Ident) : Occupancies := t.erase vehicle

end Occupancies

end Timetable
