import Timetable.Calendar.Written
import Timetable.Fault
import Timetable.Json.Value

namespace Timetable.Decode

/-- What reads a value of a type; none when the JSON value writes none. -/
abbrev Decoder (α : Type) := Json → Option α

def text : Decoder String
  | .string s => s
  | _ => none

def integer (least greatest : Int) : Decoder Int
  | .number n => n.toInt?.filter fun i => least ≤ i && i ≤ greatest
  | _ => none

def signed64 : Decoder Int := integer (-9223372036854775808) 9223372036854775807

/-- A number of so many bits, without a sign. -/
def unsigned (bits : Nat) : Decoder Nat := fun j =>
  (integer 0 (Nat.pow 2 bits - 1 : Nat) j).map Int.toNat

def double : Decoder Float
  | .number n => n.toFloat?
  | _ => none

def ident : Decoder Ident := fun j => (text j).bind Ident.parse?

def date : Decoder Date := fun j => (text j).bind Date.parse?

def list {α : Type} (item : Decoder α) : Decoder (List α)
  | .array js => js.mapM item
  | _ => none

/-- One of some named values: its name, or an object of its name with null. -/
def choice {α : Type} (named : List (String × α)) : Decoder α
  | .string (some name) => named.lookup name
  | .object [(some name, .null)] => named.lookup name
  | _ => none

/-- What is given for each field of a record. -/
abbrev Fields := String → Option Json

/-- The value of the first member of a name. -/
def member (name : String) : List (WrittenText × Json) → Option Json
  | [] => none
  | (n, j) :: ms => if n = some name then some j else member name ms

def occurrences (name : String) (ms : List (WrittenText × Json)) : Nat :=
  ms.countP fun m => m.1 = some name

/-- The fields of a record with the given names, from an object or from an array in their order. An
object may have members of other names, but a known name only once. -/
def fields (names : List String) : Decoder Fields
  | .object ms =>
    if ms.all (·.1.isSome) && names.all fun name => occurrences name ms ≤ 1 then
      some fun name => member name ms
    else none
  | .array js =>
    if js.length ≤ names.length then some fun name => (names.zip js).lookup name else none
  | _ => none

def required {α : Type} (name : String) (decode : Decoder α) (f : Fields) : Option α :=
  (f name).bind decode

/-- A field that may be absent or null. -/
def optional {α : Type} (name : String) (decode : Decoder α) (f : Fields) : Option (Option α) :=
  match f name with
  | none => some none
  | some .null => some none
  | some j => (decode j).map some

/-- A field that has a value when it is absent. -/
def defaulted {α : Type} (name : String) (value : α) (decode : Decoder α) (f : Fields) : Option α :=
  match f name with
  | none => some value
  | some j => decode j

end Timetable.Decode
