/-
Rounding an exact quotient of whole numbers to the nearest whole number. A half goes to the even
neighbour wherever a set number of places is printed and wherever time is counted; only between two shortest
decimals that are as near does the layout choose.
-/
import PrinterMotion.Decimal.Power

namespace PrinterMotion.Decimal

/-- The whole number nearest to `num / den`; a half goes to the even neighbour. -/
def roundDiv (num den : Nat) : Nat :=
  let q := num / den
  let twice := 2 * (num % den)
  if twice < den then q
  else if den < twice then q + 1
  else if q % 2 = 0 then q else q + 1

theorem roundDiv_le (num den : Nat) : roundDiv num den ≤ num / den + 1 := by
  unfold roundDiv; simp only; split <;> (try split) <;> (try split) <;> omega

theorem le_roundDiv (num den : Nat) : num / den ≤ roundDiv num den := by
  unfold roundDiv; simp only; split <;> (try split) <;> (try split) <;> omega

/-- A whole quotient is its own rounding. -/
theorem roundDiv_mul (q den : Nat) (h : 0 < den) : roundDiv (q * den) den = q := by
  simp [roundDiv, Nat.mul_div_cancel _ h, h]

/-- Where a half goes. -/
inductive Tie where
  | toEven
  | up
deriving Repr, DecidableEq

/-- The whole number nearest to `num / den`; `tie` says where a half goes. -/
def Tie.round (tie : Tie) (num den : Nat) : Nat :=
  match tie with
  | .toEven => roundDiv num den
  | .up => (2 * num + den) / (2 * den)

/-- The number of decimal digits of `n`, with one for zero. -/
def digitCount (n : Nat) : Nat := (Nat.toDigits 10 n).length

end PrinterMotion.Decimal
