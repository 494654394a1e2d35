/-
Reading numbers from text: decimal fractions with an optional exponent, the names of the special
values, and unsigned whole numbers.
-/
import PrinterMotion.Text.Blank

namespace PrinterMotion.Text

/-- The whole number that decimal digits stand for. -/
def digitsValue (cs : List Char) : Nat := cs.foldl (fun n c => 10 * n + (c.toNat - '0'.toNat)) 0

/-- The binary64 value nearest to `mantissa · 10 ^ exponent`. A positive value with its leading digit
beyond the range is infinite and one below it is zero, whatever the size of the exponent. -/
def ofDecimal (mantissa : Nat) (exponent : Int) : Float :=
  let top := (Nat.toDigits 10 mantissa).length + exponent
  if mantissa = 0 ∨ top < -400 then 0.0
  else if 400 < top then 1.0 / 0.0
  else Float.ofScientific mantissa (exponent < 0) exponent.natAbs

/-- An optional sign: whether it is a minus, and what follows. -/
def takeSign : List Char → Bool × List Char
  | '-' :: rest => (true, rest)
  | '+' :: rest => (false, rest)
  | cs => (false, cs)

/-- The exponent behind a mantissa: nothing, or `e` with an optional sign and at least one digit. -/
def readExponent : List Char → Option Int
  | [] => some 0
  | c :: rest =>
    if c = 'e' ∨ c = 'E' then
      let (negative, digits) := takeSign rest
      if digits.isEmpty ∨ digits.any (!·.isDigit) then none
      else
        let n := digitsValue digits
        some (if negative then -n else n)
    else none

/-- A decimal number without its sign: digits with at most one point among them, at least one digit,
and an optional exponent. -/
def readUnsigned (cs : List Char) : Option Float :=
  let whole := cs.takeWhile Char.isDigit
  let rest := cs.dropWhile Char.isDigit
  let (fraction, rest) := match rest with
    | '.' :: more => (more.takeWhile Char.isDigit, more.dropWhile Char.isDigit)
    | _ => ([], rest)
  if whole.isEmpty ∧ fraction.isEmpty then none
  else (readExponent rest).map fun e =>
    ofDecimal (digitsValue (whole ++ fraction)) (e - fraction.length)

/-- The special value that a word names, in any case. -/
def readSpecial (cs : List Char) : Option Float :=
  match lowerAscii (String.ofList cs) with
  | "inf" | "infinity" => some (1.0 / 0.0)
  | "nan" => some (0.0 / 0.0)
  | _ => none

/-- Reads a number: an optional sign, then a decimal or `inf`, `infinity` or `nan`. -/
def readFloat (s : String) : Option Float :=
  let (negative, cs) := takeSign s.toList
  ((readSpecial cs).or (readUnsigned cs)).map fun x => if negative then -x else x

/-- Reads an unsigned whole number below `bound`, with an optional plus sign. -/
def readNat (bound : Nat) (s : String) : Option Nat :=
  let cs := match s.toList with
    | '+' :: rest => rest
    | cs => cs
  if cs.isEmpty ∨ cs.any (!·.isDigit) then none
  else
    let n := digitsValue cs
    if n < bound then some n else none

end PrinterMotion.Text
