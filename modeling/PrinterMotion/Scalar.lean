/-
The numbers that motion is computed in. Every rule of the library that is about times, positions or
clock readings is written once, over this interface, in the order in which a machine evaluates it.
Binary64 floating point is the instance the programs run on; any exact field with square roots and
trigonometry is another, and the rules can be reasoned about there.
-/
import PrinterMotion.Decimal.Binary64

namespace PrinterMotion

/-- Arithmetic, comparison and the elementary functions the motion rules use. -/
class Scalar (α : Type) extends
    Add α, Sub α, Mul α, Div α, Neg α, LT α, LE α, BEq α, OfScientific α where
  /-- Order is decidable. -/
  decLt (a b : α) : Decidable (a < b)
  decLe (a b : α) : Decidable (a ≤ b)
  /-- Strict order in which every two different values compare, missing numbers included. -/
  totalLt (a b : α) : Bool
  /-- The value nearest to a whole number. -/
  ofInt (n : Int) : α
  /-- The largest whole number at or below. -/
  floor (x : α) : Int
  /-- The whole number nearest to `scale · x`, a half going to the even neighbour. -/
  scaledRound (scale : Nat) (x : α) : Int
  sqrt (x : α) : α
  sin (x : α) : α
  cos (x : α) : α
  acos (x : α) : α
  /-- The angle of the point `(x, y)`. -/
  atan2 (y x : α) : α
  exp (x : α) : α
  pow (x y : α) : α
  pi : α

namespace Scalar

attribute [reducible, instance] decLt decLe

variable {α : Type} [Scalar α]

/-- The value nearest to a natural number. -/
@[specialize] def ofNat (n : Nat) : α := ofInt n

/-- False only of a missing number, which differs from itself. -/
@[specialize] def isNumber (x : α) : Bool := x == x

/-- A finite number leaves nothing when taken from itself. -/
@[specialize] def isFinite (x : α) : Bool := x - x == (0.0 : α)

/-- The larger of two numbers; a missing number yields to the other one. -/
@[specialize] def max (a b : α) : α := if a < b then b else if isNumber a then a else b

/-- The smaller of two numbers; a missing number yields to the other one. -/
@[specialize] def min (a b : α) : α := if b < a then b else if isNumber a then a else b

/-- Distance from zero. -/
@[specialize] def abs (x : α) : α := if x < (0.0 : α) then -x else x

/-- The sum of a list, taken from the left beginning with zero. -/
@[specialize] def sum (xs : List α) : α := xs.foldl (· + ·) 0.0

/-- An angle in degrees, in radians. -/
@[specialize] def radians (degrees : α) : α := degrees * (pi / 180.0)

end Scalar

/-- Binary64 floating point with the elementary functions of the machine. -/
instance : Scalar Float where
  decLt a b := inferInstanceAs (Decidable (a < b))
  decLe a b := inferInstanceAs (Decidable (a ≤ b))
  totalLt a b := Decimal.totalKey a < Decimal.totalKey b
  ofInt n := Float.ofInt n
  floor := Decimal.floorOf
  scaledRound := Decimal.scaledRoundOf
  sqrt := Float.sqrt
  sin := Float.sin
  cos := Float.cos
  acos := Float.acos
  atan2 := Float.atan2
  exp := Float.exp
  pow := Float.pow
  pi := 3.141592653589793

end PrinterMotion
