/-
Decimal digits of binary64 values: the fewest digits that read back to the same value, a fixed number
of significant digits, and a fixed number of decimal places. All are found by exact whole-number
arithmetic on the value's binary form.
-/
import PrinterMotion.Decimal.Binary64

namespace PrinterMotion.Decimal

/-- A positive decimal `0.d₁d₂…dₙ · 10 ^ (point)`: its significant digits as one whole number, how
many there are, and the place of the decimal point counted from the left of the first digit. -/
structure Digits where
  digits : Nat
  count : Nat
  point : Int
deriving Repr, DecidableEq

namespace Digits

/-- The digits as characters, with leading zeros up to `count`. -/
def chars (d : Digits) : List Char :=
  let cs := Nat.toDigits 10 d.digits
  List.replicate (d.count - cs.length) '0' ++ cs

/-- The same number without the zeros its digits end in. -/
def trim (d : Digits) : Digits :=
  go d.count d
where
  /-- Drops at most `fuel` zeros and keeps one digit. -/
  go : Nat → Digits → Digits
    | 0, d => d
    | fuel + 1, d =>
      if 1 < d.count ∧ d.digits % 10 = 0 then go fuel ⟨d.digits / 10, d.count - 1, d.point⟩ else d

end Digits

/-- The exponent `k` with `10 ^ k ≤ num / den < 10 ^ (k + 1)`, for positive `num` and `den`. -/
def decimalExponent (num den : Nat) : Int :=
  if den ≤ num then digitCount (num / den) - 1
  else
    let k := digitCount (den / num)
    if den ≤ num * tenTo (k - 1) then -((k - 1 : Nat) : Int) else -(k : Int)

/-- Numerator and denominator of `(num / den) · 10 ^ k`. -/
def scaleTen (num den : Nat) (k : Int) : Nat × Nat := (num * tenTo k.toNat, den * tenTo (-k).toNat)

/-- The value of `d` rounded to `count` significant digits; it must not be zero. -/
def significant (d : Dyadic) (count : Nat) : Digits :=
  let k := decimalExponent d.num d.den
  let (num, den) := scaleTen d.num d.den (count - 1 - k)
  let n := roundDiv num den
  if n = tenTo count then ⟨n / 10, count, k + 2⟩ else ⟨n, count, k + 1⟩

/-- The half-open or closed interval of reals that round to a value, over one denominator: its lower
and upper end and whether the ends belong to it. -/
structure Interval where
  lower : Nat
  upper : Nat
  den : Nat
  closed : Bool
deriving Repr

/-- The reals that round to `d`: half a unit on either side, a quarter unit below a power of two, whose
lower neighbour is nearer. The ends round to the value when its mantissa is even. -/
def Interval.of (d : Dyadic) : Interval :=
  let unit := twoTo d.exponent.toNat
  let den := 4 * d.den
  let below := if d.mantissa = twoTo 52 ∧ -1074 < d.exponent then unit else 2 * unit
  ⟨4 * d.num - below, 4 * d.num + 2 * unit, den, d.mantissa % 2 = 0⟩

/-- Whether `num / den` rounds to the value of the interval. -/
def Interval.contains (i : Interval) (num den : Nat) : Bool :=
  let x := num * i.den
  let lo := i.lower * den
  let hi := i.upper * den
  if i.closed then lo ≤ x ∧ x ≤ hi else lo < x ∧ x < hi

/-- The decimal with `count` digits that is nearest to `d` among those that round to it, if any.
The two candidates are the neighbours of the value on the grid of that many digits. -/
def nearestWithin (tie : Tie) (d : Dyadic) (i : Interval) (k : Int) (count : Nat) : Option Digits :=
  let (num, den) := scaleTen d.num d.den (count - 1 - k)
  let below := num / den
  let fits (n : Nat) : Bool :=
    let (a, b) := scaleTen n 1 (k + 1 - count)
    i.contains a b
  let pick (n : Nat) : Digits := if n = tenTo count then ⟨n / 10, count, k + 2⟩ else ⟨n, count, k + 1⟩
  let nearer := tie.round num den
  let other := if nearer = below then below + 1 else below
  if fits nearer then some (pick nearer) else if fits other then some (pick other) else none

/-- The fewest digits that read back to the value, which must not be zero; of those the nearest to it, and of
two that are as near the one that `tie` says. Seventeen digits always read back. -/
def shortest (tie : Tie) (d : Dyadic) : Digits :=
  let i := Interval.of d
  let k := decimalExponent d.num d.den
  let found := (List.range 17).findSome? fun n => nearestWithin tie d i k (n + 1)
  (found.getD (significant d 17)).trim

/-- The whole number nearest to the absolute value times `10 ^ places`. -/
def fixedUnits (d : Dyadic) (places : Nat) : Nat := roundDiv (d.num * tenTo places) d.den

end PrinterMotion.Decimal
