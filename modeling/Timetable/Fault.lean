import Timetable.Ident
import Timetable.Text.Quoted

namespace Timetable

inductive Fault where
  | unknownAgency (id : String)
  | emptyTrip (trip : Ident)
  | malformedId (text : String)
  deriving DecidableEq, Repr

namespace Fault

def message : Fault → String
  | unknownAgency id => "Agency not found: " ++ id
  | emptyTrip trip => "Invalid data: trip " ++ trip.text ++ " has no stop times"
  | malformedId text => "Invalid id: " ++ Text.quoted text

end Fault

/-- Reads an identifier, or tells which text is none. -/
def Ident.read (s : String) : Except Fault Ident :=
  match Ident.parse? s with
  | some i => .ok i
  | none => .error (.malformedId s)

end Timetable
