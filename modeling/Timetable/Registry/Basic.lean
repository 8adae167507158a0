import Timetable.Ident
import Timetable.Table

namespace Timetable

abbrev Registry (V : Type) := Table Ident V

namespace Registry

variable {V : Type}

def has (t : Registry V) (id : Ident) : Bool := t.contains id

def hasText (t : Registry V) (s : String) : Bool :=
  match Ident.parse? s with
  | some id => t.has id
  | none => false

end Registry

abbrev VehicleSet := Registry Unit

namespace VehicleSet

def ofList (vehicles : List Ident) : VehicleSet := Table.ofEntries (vehicles.map fun v => (v, ()))

def add (s : VehicleSet) (vehicle : Ident) : VehicleSet := s.insert vehicle ()

/-- The vehicles, in the order of their ids. -/
def vehicles (s : VehicleSet) : List Ident := s.keys

end VehicleSet

end Timetable
