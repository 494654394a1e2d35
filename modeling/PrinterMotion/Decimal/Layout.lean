/-
How numbers are written in messages, in tables and in summaries. Each layout is one function from a
value to its text; they share the digits of `Decimal.Digits` and differ in where the decimal point
stands, when an exponent is written and whether a whole number keeps its fraction.
-/
import PrinterMotion.Decimal.Digits

namespace PrinterMotion.Decimal

/-- Text of a list of characters repeated. -/
def zeros (n : Nat) : List Char := List.replicate n '0'

/-- The digits with the point in its place and no exponent; `fraction` is what a whole number gets. -/
def Digits.positional (d : Digits) (fraction : List Char) : List Char :=
  let cs := d.chars
  if d.point ≤ 0 then '0' :: '.' :: (zeros (-d.point).toNat ++ cs)
  else if cs.length ≤ d.point.toNat then cs ++ zeros (d.point.toNat - cs.length) ++ fraction
  else cs.take d.point.toNat ++ '.' :: cs.drop d.point.toNat

/-- One digit, the others behind the point, and the exponent of ten. -/
def Digits.scientific (d : Digits) : List Char :=
  let mantissa := match d.chars with
    | [] => ['0']
    | [c] => [c]
    | c :: rest => c :: '.' :: rest
  mantissa ++ 'e' :: (toString (d.point - 1)).toList

/-- A text with the sign of the value in front. -/
def signedText (negative : Bool) (cs : List Char) : String :=
  String.ofList (if negative then '-' :: cs else cs)

/-- Text of an infinity. -/
def infinityText (negative : Bool) : String := if negative then "-inf" else "inf"

/-- The fewest digits that read back, never with an exponent: `5`, `-0.1`, `-0`, `inf`, `NaN`. Of two
decimals that are as near the one farther from zero is taken. -/
def plain (x : Float) : String :=
  match Binary64.ofFloat x with
  | .nan => "NaN"
  | .infinite negative => infinityText negative
  | .finite d =>
    if d.mantissa = 0 then signedText d.negative ['0']
    else signedText d.negative ((shortest .up d).positional [])

/-- The fewest digits that read back, with a fraction on whole numbers; an exponent is written from
`10 ^ 16` on and below `10 ^ (-places)`. -/
def general (tie : Tie) (places : Nat) (x : Float) : String :=
  match Binary64.ofFloat x with
  | .nan => "NaN"
  | .infinite negative => infinityText negative
  | .finite d =>
    if d.mantissa = 0 then signedText d.negative ['0', '.', '0']
    else
      let ds := shortest tie d
      signedText d.negative
        (if -(places : Int) < ds.point ∧ ds.point ≤ 16 then ds.positional ['.', '0']
          else ds.scientific)

/-- An optional number as the messages show it: `None` or `Some(2.0)`, with an exponent below a ten
thousandth and ties as in `plain`. -/
def optional : Option Float → String
  | none => "None"
  | some x => "Some(" ++ general .up 4 x ++ ")"

/-- The form of finite numbers in summaries and tables: `0.04`, `1.0`, `1e-7`. Of two decimals that are as
near the one with the even digit is taken. -/
def record (x : Float) : String := general .toEven 5 x

/-- A fixed number of decimal places, rounded half to even; the sign of a negative zero is kept. -/
def fixed (places : Nat) (x : Float) : String :=
  match Binary64.ofFloat x with
  | .nan => "NaN"
  | .infinite negative => infinityText negative
  | .finite d =>
    let cs := Nat.toDigits 10 (fixedUnits d places)
    let cs := zeros (places + 1 - cs.length) ++ cs
    let whole := cs.take (cs.length - places)
    signedText d.negative (if places = 0 then whole else whole ++ '.' :: cs.drop (cs.length - places))

/-- One digit before the point and `places` behind it, with the exponent of ten always written. -/
def exponential (places : Nat) (x : Float) : String :=
  match Binary64.ofFloat x with
  | .nan => "NaN"
  | .infinite negative => infinityText negative
  | .finite d =>
    if d.mantissa = 0 then signedText d.negative (Digits.scientific ⟨0, places + 1, 1⟩)
    else signedText d.negative (significant d (places + 1)).scientific

end PrinterMotion.Decimal
