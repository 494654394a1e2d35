/-
Exact arithmetic. Every rule of motion is written over `Scalar`, and here `Scalar` is an ordered field:
sums and products are exact, and every value is finite. Nothing is asked of the elementary functions, so
what is proved holds whatever they are.
-/
import Mathlib.Algebra.Order.Floor.Ring
import Mathlib.Analysis.SpecialFunctions.Complex.Arg
import Mathlib.Analysis.SpecialFunctions.Pow.Real
import Mathlib.Analysis.SpecialFunctions.Trigonometric.Inverse
import Mathlib.Data.Rat.Floor
import Mathlib.Tactic
import PrinterMotion.Scalar

namespace PrinterMotion

/-- An ordered field with whole parts and elementary functions. -/
class Exact (F : Type) extends Field F, LinearOrder F, IsStrictOrderedRing F, FloorRing F where
  sqrt (x : F) : F
  sin (x : F) : F
  cos (x : F) : F
  acos (x : F) : F
  atan2 (y x : F) : F
  exp (x : F) : F
  pow (x y : F) : F
  pi : F

namespace Exact

/-- The whole number nearest to `x`, a half going to the even neighbour. -/
def roundEven {F : Type} [Exact F] (x : F) : Int :=
  if Int.fract x < 0.5 then ⌊x⌋
  else if 0.5 < Int.fract x then ⌊x⌋ + 1
  else if ⌊x⌋ % 2 = 0 then ⌊x⌋ else ⌊x⌋ + 1

end Exact

instance (F : Type) [Exact F] : Scalar F where
  decLt := inferInstance
  decLe := inferInstance
  totalLt a b := decide (a < b)
  ofInt n := n
  floor x := ⌊x⌋
  scaledRound scale x := Exact.roundEven ((scale : F) * x)
  sqrt := Exact.sqrt
  sin := Exact.sin
  cos := Exact.cos
  acos := Exact.acos
  atan2 := Exact.atan2
  exp := Exact.exp
  pow := Exact.pow
  pi := Exact.pi

/-- The real numbers with the elementary functions of analysis. -/
noncomputable instance : Exact ℝ where
  sqrt := Real.sqrt
  sin := Real.sin
  cos := Real.cos
  acos := Real.arccos
  atan2 y x := Complex.arg ⟨x, y⟩
  exp := Real.exp
  pow := Real.rpow
  pi := Real.pi

/-- The rational numbers, on which motion can be computed exactly. Square roots are exact on squares;
the functions that leave the field are not used there. -/
instance : Exact ℚ where
  sqrt x := (Nat.sqrt x.num.toNat : ℚ) / (Nat.sqrt x.den : ℚ)
  sin _ := 0
  cos _ := 0
  acos _ := 0
  atan2 _ _ := 0
  exp _ := 0
  pow _ _ := 0
  pi := 0

/-! ## Scalar operations over a field -/

namespace Scalar

variable {F : Type} [Exact F]

@[simp] theorem zero_literal : (0.0 : F) = 0 := by norm_num

@[simp] theorem one_literal : (1.0 : F) = 1 := by norm_num

@[simp] theorem isNumber_eq (x : F) : isNumber x = true := by simp [isNumber]

@[simp] theorem isFinite_eq (x : F) : isFinite x = true := by simp [isFinite]

@[simp] theorem max_eq (a b : F) : Scalar.max a b = Max.max a b := by
  unfold Scalar.max
  split
  · rw [max_eq_right (by assumption : a < b).le]
  · rw [isNumber_eq, if_pos rfl, max_eq_left (not_lt.1 (by assumption))]

@[simp] theorem min_eq (a b : F) : Scalar.min a b = Min.min a b := by
  unfold Scalar.min
  split
  · rw [min_eq_right (by assumption : b < a).le]
  · rw [isNumber_eq, if_pos rfl, min_eq_left (not_lt.1 (by assumption))]

@[simp] theorem abs_eq (x : F) : Scalar.abs x = |x| := by
  unfold Scalar.abs
  rw [zero_literal]
  split
  · rw [abs_of_neg (by assumption)]
  · rw [abs_of_nonneg (not_lt.1 (by assumption))]

@[simp] theorem ofInt_eq (n : Int) : (Scalar.ofInt n : F) = n := rfl

@[simp] theorem totalLt_eq (a b : F) : Scalar.totalLt a b = decide (a < b) := rfl

theorem sum_eq (xs : List F) : Scalar.sum xs = xs.sum := by
  rw [Scalar.sum, zero_literal, List.sum_eq_foldl]

end Scalar

end PrinterMotion
