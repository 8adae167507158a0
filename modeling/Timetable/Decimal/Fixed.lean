namespace Timetable.Decimal

/-- What the bits of a double stand for. -/
inductive Reading where
  /-- The number `mantissa * 2 ^ exponent`, with a sign that zero has too. -/
  | finite (negative : Bool) (mantissa : Nat) (exponent : Int)
  | infinite (negative : Bool)
  | undefined
  deriving DecidableEq, Repr

/-- Sign bit, eleven bits of exponent, fifty-two of fraction. -/
def Reading.ofBits (bits : Nat) : Reading :=
  let negative := bits.testBit 63
  let exponent := (bits >>> 52) % 2048
  let fraction := bits % (1 <<< 52)
  if exponent = 2047 then
    if fraction = 0 then .infinite negative else .undefined
  else if exponent = 0 then .finite negative fraction (-1074)
  else .finite negative ((1 <<< 52) + fraction) (exponent - 1075)

/-- The whole number nearest to a quotient; a half goes to the even neighbour. -/
def roundHalfEven (num den : Nat) : Nat :=
  let q := num / den
  let r := num % den
  if 2 * r < den then q
  else if 2 * r = den then q + q % 2
  else q + 1

/-- A whole number of units of `10 ^ -places`, with its point. -/
def placePoint (places units : Nat) : String :=
  let one := Nat.pow 10 places
  let digits := Nat.repr (units % one)
  Nat.repr (units / one) ++ "." ++
    String.ofList (List.replicate (places - digits.length) '0') ++ digits

def sign (negative : Bool) : String := if negative then "-" else ""

def Reading.fixed (places : Nat) : Reading → String
  | .finite negative mantissa exponent =>
    let scaled := (mantissa <<< exponent.toNat) * Nat.pow 10 places
    let units := roundHalfEven scaled (1 <<< (-exponent).toNat)
    sign negative ++ placePoint places units
  | .infinite negative => sign negative ++ "inf"
  | .undefined => "NaN"

def fixed (places : Nat) (x : Float) : String :=
  (Reading.ofBits x.toBits.toNat).fixed places

/-- Distances and coordinates are written with six decimals. -/
def sixPlaces (x : Float) : String := fixed 6 x

end Timetable.Decimal
