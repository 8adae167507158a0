namespace Timetable

/-- A number as written: sign, significant digits and power of ten. -/
structure Numeral where
  negative : Bool
  significand : Nat
  exponent : Int
  /-- Written with neither a fraction nor an exponent. -/
  whole : Bool
  deriving DecidableEq, Repr

namespace Numeral

/-- The whole number that a numeral writes; a negative zero writes none. -/
def toInt? (n : Numeral) : Option Int :=
  if n.whole then
    if n.negative then
      if n.significand = 0 then none else some (-n.significand)
    else some n.significand
  else none

/-- The magnitude of a numeral as a double; none when it is too large for one. -/
def magnitude? (n : Numeral) : Option Float :=
  let digits : Int := (Nat.repr n.significand).length
  if n.significand = 0 then some 0.0
  else if digits + n.exponent < -400 then some 0.0
  else if digits + n.exponent > 400 then none
  else
    let x :=
      if 0 ≤ n.exponent then
        Float.ofScientific (n.significand * Nat.pow 10 n.exponent.toNat) false 0
      else Float.ofScientific n.significand true n.exponent.natAbs
    if x.isFinite then some x else none

def toFloat? (n : Numeral) : Option Float :=
  n.magnitude?.map fun x => if n.negative then -x else x

end Numeral

/-- A written text; none when an escape in it stands for no character. -/
abbrev WrittenText := Option String

/-- Numbers keep their written form, and objects keep every member in order, repeated names too. -/
inductive Json where
  | null
  | bool (value : Bool)
  | number (value : Numeral)
  | string (value : WrittenText)
  | array (items : List Json)
  | object (members : List (WrittenText × Json))
  deriving Repr, Inhabited

end Timetable
