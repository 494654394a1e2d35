/-
The scalar values of TOML: booleans, integers, floats and dates, each of which is a run of characters
without blanks, except that a date and a time may be set apart by a space.
-/
import PrinterMotion.Decimal.Power
import PrinterMotion.Toml.Datetime
import PrinterMotion.Toml.Value

namespace PrinterMotion.Toml

open PrinterMotion.Text (digitsValue ofDecimal takeSign)

/-- Characters of words, numbers and dates. -/
def isTokenChar (c : Char) : Bool :=
  c.isAlphanum || c = '_' || c = '+' || c = '-' || c = '.' || c = ':'

/-- Reads a run of digits in which single underscores may stand between digits. -/
def readRun (isDigit : Char → Bool) : List Char → Option (List Char × List Char)
  | c :: rest => if isDigit c then some (go [c] rest) else none
  | [] => none
where
  /-- Goes on behind a digit; the digits so far are in reverse. -/
  go (acc : List Char) : List Char → List Char × List Char
    | '_' :: d :: rest => if isDigit d then go (d :: acc) rest else (acc.reverse, '_' :: d :: rest)
    | d :: rest => if isDigit d then go (d :: acc) rest else (acc.reverse, d :: rest)
    | [] => (acc.reverse, [])

/-- The value of a digit up to sixteen. -/
def hexValue (c : Char) : Nat :=
  if c.isDigit then c.toNat - '0'.toNat else c.toLower.toNat - 'a'.toNat + 10

/-- Whether a character is a hexadecimal digit. -/
def isHexDigit (c : Char) : Bool := c.isDigit || ('a' ≤ c.toLower && c.toLower ≤ 'f')

/-- An integer that fits a signed 64-bit word. -/
def signedWord (n : Int) : Option Value :=
  if -(twoTo 63 : Int) ≤ n ∧ n < twoTo 63 then some (.integer n) else none

/-- An integer in another base than ten, without sign. -/
def readBased (base : Nat) (isDigit : Char → Bool) (cs : List Char) : Option Value :=
  match readRun isDigit cs with
  | some (ds, []) => signedWord (ds.foldl (fun n c => base * n + hexValue c) 0 : Nat)
  | _ => none

/-- An exponent: `e`, an optional sign, and digits, leading zeros allowed. -/
def readExponent : List Char → Option Int
  | c :: rest =>
    if c = 'e' ∨ c = 'E' then
      let (negative, rest) := takeSign rest
      match readRun Char.isDigit rest with
      | some (ds, []) => some (if negative then -(digitsValue ds : Int) else digitsValue ds)
      | _ => none
    else none
  | [] => none

/-- A float, which is finite unless a negative one may overflow. -/
def finish (rules : Rules) (negative : Bool) (digits : List Char) (exponent : Int) : Option Value :=
  let x := ofDecimal (digitsValue digits) exponent
  if x.isInf && !(negative && rules.negativeOverflow) then none
  else some (.float (if negative then -x else x))

/-- A decimal integer or float whose sign has been read. Only zero begins with the digit zero. -/
def readDecimal (rules : Rules) (negative : Bool) (cs : List Char) : Option Value := do
  let (whole, rest) ← readRun Char.isDigit cs
  if whole.length ≠ 1 ∧ whole.head? = some '0' then none
  else
    match rest with
    | [] => signedWord (if negative then -(digitsValue whole : Int) else digitsValue whole)
    | '.' :: rest =>
      let (fraction, rest) ← readRun Char.isDigit rest
      let exponent ← if rest.isEmpty then some 0 else readExponent rest
      finish rules negative (whole ++ fraction) (exponent - fraction.length)
    | _ => finish rules negative whole (← readExponent rest)

/-- A number with its sign. -/
def readNumber (rules : Rules) (cs : List Char) : Option Value :=
  let (negative, rest) := takeSign cs
  if rest = ['i', 'n', 'f'] then some (.float (if negative then -1.0 / 0.0 else 1.0 / 0.0))
  else if rest = ['n', 'a', 'n'] then some (.float (0.0 / 0.0))
  else
    match cs with
    | '0' :: 'x' :: digits => readBased 16 isHexDigit digits
    | '0' :: 'o' :: digits => readBased 8 (fun c => c.isDigit && c < '8') digits
    | '0' :: 'b' :: digits => readBased 2 (fun c => c = '0' || c = '1') digits
    | _ => readDecimal rules negative rest

/-- The value of a run of token characters. -/
def ofToken (rules : Rules) (cs : List Char) : Option Value :=
  if cs = ['t', 'r', 'u', 'e'] then some (.boolean true)
  else if cs = ['f', 'a', 'l', 's', 'e'] then some (.boolean false)
  else (readNumber rules cs).or ((readDatetime rules cs).map .datetime)

/-- Whether a run of token characters is a date, behind which a time may follow after a space. -/
def isDate (cs : List Char) : Bool :=
  match readDate cs with
  | some (_, []) => true
  | _ => false

/-- Reads a scalar value. -/
def readScalar (rules : Rules) (cs : List Char) : Option (Value × List Char) :=
  let token := cs.takeWhile isTokenChar
  let rest := cs.dropWhile isTokenChar
  match isDate token, rest with
  | true, ' ' :: more =>
    let time := more.takeWhile isTokenChar
    if (time.head?.map Char.isDigit).getD false then
      (ofToken rules (token ++ ' ' :: time)).map (·, more.dropWhile isTokenChar)
    else (ofToken rules token).map (·, rest)
  | _, _ => (ofToken rules token).map (·, rest)

end PrinterMotion.Toml
