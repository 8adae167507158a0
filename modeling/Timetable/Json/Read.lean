import Timetable.Json.Scan

namespace Timetable.Json

/-- An open container; what it holds so far is kept in reverse. -/
inductive Frame where
  | array (items : List Json)
  | object (members : List (WrittenText × Json))
  /-- An object that waits for the value of a name. -/
  | member (members : List (WrittenText × Json)) (name : WrittenText)

inductive Expected where
  | value
  | valueOrEnd
  | name
  | nameOrEnd
  | colon
  | commaOrEnd

inductive Reader where
  | reading (stack : List Frame) (expected : Expected)
  | done (value : Json)

namespace Reader

def start : Reader := .reading [] .value

/-- Puts a finished value where it belongs. -/
def place (v : Json) : List Frame → Option Reader
  | [] => some (.done v)
  | .array items :: stack => some (.reading (.array (v :: items) :: stack) .commaOrEnd)
  | .member ms name :: stack => some (.reading (.object ((name, v) :: ms) :: stack) .commaOrEnd)
  | .object _ :: _ => none

def closeArray : List Frame → Option Reader
  | .array items :: stack => place (.array items.reverse) stack
  | _ => none

def closeObject : List Frame → Option Reader
  | .object ms :: stack => place (.object ms.reverse) stack
  | _ => none

/-- A token where a value may stand. -/
def value (stack : List Frame) : Token → Option Reader
  | .null => place .null stack
  | .bool b => place (.bool b) stack
  | .number n => place (.number n) stack
  | .string s => place (.string s) stack
  | .beginArray => some (.reading (.array [] :: stack) .valueOrEnd)
  | .beginObject => some (.reading (.object [] :: stack) .nameOrEnd)
  | _ => none

/-- A token where the name of a member may stand. -/
def name : List Frame → Token → Option Reader
  | .object ms :: stack, .string s => some (.reading (.member ms s :: stack) .colon)
  | _, _ => none

/-- What a comma in the innermost container asks for. -/
def next : List Frame → Option Reader
  | stack@(.array _ :: _) => some (.reading stack .value)
  | stack@(.object _ :: _) => some (.reading stack .name)
  | _ => none

def step : Reader → Token → Option Reader
  | .done _, _ => none
  | .reading stack .value, t => value stack t
  | .reading stack .valueOrEnd, .endArray => closeArray stack
  | .reading stack .valueOrEnd, t => value stack t
  | .reading stack .name, t => name stack t
  | .reading stack .nameOrEnd, .endObject => closeObject stack
  | .reading stack .nameOrEnd, t => name stack t
  | .reading stack .colon, .colon => some (.reading stack .value)
  | .reading stack .commaOrEnd, .comma => next stack
  | .reading stack .commaOrEnd, .endArray => closeArray stack
  | .reading stack .commaOrEnd, .endObject => closeObject stack
  | .reading _ _, _ => none

def finish : Reader → Option Json
  | .done v => some v
  | .reading _ _ => none

end Reader

def parse? (s : String) : Option Json := do
  let tokens ← tokens? s.toList
  let reader ← tokens.foldlM Reader.step Reader.start
  reader.finish

end Timetable.Json
