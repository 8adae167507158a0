namespace Timetable

class Scalar (R : Type) extends Zero R, One R, Add R, Sub R where
  half : R → R
  lt : R → R → Bool
  le : R → R → Bool
  /-- Numerical equality: doubles have one zero for both signs, and an undefined value equals
  none. -/
  eq : R → R → Bool

namespace Scalar

variable {R : Type} [Scalar R]

/-- The number, raised to `low` unless it is larger. -/
def atLeast (low x : R) : R := if lt low x then x else low

/-- The number, lowered to `high` unless it is smaller. -/
def atMost (high x : R) : R := if lt x high then x else high

end Scalar

instance : Scalar Float where
  zero := 0.0
  one := 1.0
  half x := x / 2.0
  lt x y := decide (x < y)
  le x y := decide (x ≤ y)
  eq x y := x == y

class Trigonometry (R : Type) extends Scalar R, Mul R, Div R, OfScientific R where
  pi : R
  sin : R → R
  cos : R → R
  asin : R → R
  sqrt : R → R
  abs : R → R

instance : Trigonometry Float where
  pi := 3.141592653589793
  sin := Float.sin
  cos := Float.cos
  asin := Float.asin
  sqrt := Float.sqrt
  abs := Float.abs

end Timetable
