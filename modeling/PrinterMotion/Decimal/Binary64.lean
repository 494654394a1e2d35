/-
What a 64-bit binary floating point number stands for: a sign, a whole mantissa and a power of two,
or one of the special values. Whole parts and scaled roundings are computed from this form in exact
arithmetic, so they never pass through a second rounding.
-/
import PrinterMotion.Decimal.Rounding

namespace PrinterMotion.Decimal

/-- The number `± mantissa · 2 ^ exponent`. -/
structure Dyadic where
  negative : Bool
  mantissa : Nat
  exponent : Int
deriving Repr, DecidableEq

/-- The kinds of value a binary64 word encodes. -/
inductive Binary64 where
  | finite (value : Dyadic)
  | infinite (negative : Bool)
  | nan
deriving Repr, DecidableEq

/-- The value a word encodes: eleven exponent bits biased by 1023 above 52 fraction bits. -/
def Binary64.ofBits (bits : UInt64) : Binary64 :=
  let word : Nat := bits.toNat
  let negative := word / twoTo 63 == 1
  let biased : Nat := word / twoTo 52 % twoTo 11
  let fraction : Nat := word % twoTo 52
  if biased = 2047 then
    if fraction = 0 then .infinite negative else .nan
  else if biased = 0 then .finite ⟨negative, fraction, -1074⟩
  else .finite ⟨negative, twoTo 52 + fraction, (biased : Int) - 1075⟩

/-- The value of a floating point number. -/
def Binary64.ofFloat (x : Float) : Binary64 := .ofBits x.toBits

namespace Dyadic

/-- Numerator of the absolute value as a quotient of whole numbers. -/
def num (d : Dyadic) : Nat := d.mantissa * twoTo d.exponent.toNat

/-- Denominator of the absolute value, a power of two. -/
def den (d : Dyadic) : Nat := twoTo (-d.exponent).toNat

theorem den_pos (d : Dyadic) : 0 < d.den := Nat.two_pow_pos _

/-- Gives a whole number the sign of `d`. -/
def signed (d : Dyadic) (n : Nat) : Int := if d.negative then -(n : Int) else n

/-- The largest whole number at or below the value. -/
def floor (d : Dyadic) : Int := Int.fdiv (d.signed d.num) d.den

/-- The whole number nearest to `scale` times the value, a half going to the even neighbour. -/
def scaledRound (d : Dyadic) (scale : Nat) : Int := d.signed (roundDiv (d.num * scale) d.den)

end Dyadic

/-- A whole number beyond every finite binary64 value. -/
def beyondBinary64 (negative : Bool) : Int := if negative then -(twoTo 1024 : Int) else twoTo 1024

/-- The largest whole number at or below `x`; an infinity counts as a whole number beyond every
finite value and a missing number as zero. -/
def floorOf (x : Float) : Int :=
  match Binary64.ofFloat x with
  | .finite d => d.floor
  | .infinite negative => beyondBinary64 negative
  | .nan => 0

/-- The whole number nearest to `scale · x`, with the conventions of `floorOf`. -/
def scaledRoundOf (scale : Nat) (x : Float) : Int :=
  match Binary64.ofFloat x with
  | .finite d => d.scaledRound scale
  | .infinite negative => beyondBinary64 negative
  | .nan => 0

/-- The place of `x` in the total order of binary64 values, in which `-0` lies below `+0` and a
value that is no number above all others. -/
def totalKey (x : Float) : Int :=
  let word := x.toBits.toNat
  if word < twoTo 63 then word else -((word - twoTo 63 : Nat) : Int) - 1

end PrinterMotion.Decimal
