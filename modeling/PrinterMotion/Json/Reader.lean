/-
Reading JSON texts. Readers take the characters that are left and return what follows; a reader of nested
values also takes a bound on the number of its calls, for which twice the length of the text is enough.
-/
import PrinterMotion.Json.Value
import PrinterMotion.Text.Number

namespace PrinterMotion.Json

/-- Blanks between the parts of a text. -/
def isBlank (c : Char) : Bool := c = ' ' || c = '\t' || c = '\n' || c = '\r'

/-- What follows blanks. -/
def skip (cs : List Char) : List Char := cs.dropWhile isBlank

/-- The value of four digits of base sixteen. -/
def hexValue (cs : List Char) : Option Nat :=
  cs.foldlM (fun n c =>
    if c.isDigit then some (16 * n + (c.toNat - '0'.toNat))
    else if 'a' ≤ c.toLower ∧ c.toLower ≤ 'f' then some (16 * n + (c.toLower.toNat - 'a'.toNat + 10))
    else none) 0

/-- The character that stands behind a backslash. -/
def escaped? (c : Char) : Option Char :=
  match c with
  | '"' | '\\' | '/' => some c
  | 'b' => some (Char.ofNat 8)
  | 'f' => some (Char.ofNat 12)
  | 'n' => some '\n'
  | 'r' => some '\r'
  | 't' => some '\t'
  | _ => none

/-- The rest of a quoted text, behind its opening quote; `read` is what came before, the last first. -/
def readText (read : List Char) : List Char → Option (String × List Char)
  | '"' :: cs => some (String.ofList read.reverse, cs)
  | '\\' :: 'u' :: a :: b :: c :: d :: cs =>
    match hexValue [a, b, c, d] with
    | none => none
    | some n =>
      if 0xD800 ≤ n ∧ n < 0xDC00 then
        match cs with
        | '\\' :: 'u' :: e :: f :: g :: h :: cs =>
          match hexValue [e, f, g, h] with
          | none => none
          | some m =>
            if 0xDC00 ≤ m ∧ m < 0xE000 then
              readText (Char.ofNat (0x10000 + (n - 0xD800) * 1024 + (m - 0xDC00)) :: read) cs
            else none
        | _ => none
      else if 0xDC00 ≤ n ∧ n < 0xE000 then none
      else readText (Char.ofNat n :: read) cs
  | '\\' :: c :: cs =>
    match escaped? c with
    | none => none
    | some c => readText (c :: read) cs
  | c :: cs => if c.toNat < 32 then none else readText (c :: read) cs
  | [] => none

/-- A character of a number. -/
def isNumeric (c : Char) : Bool :=
  c.isDigit || c = '-' || c = '+' || c = '.' || c = 'e' || c = 'E'

/-- Whether the digits in front of a number are as they have to be: at least one, no further digit behind
a leading zero, and a digit behind the point. -/
def hasPlainDigits (cs : List Char) : Bool :=
  let cs := if cs.head? = some '-' then cs.drop 1 else cs
  let whole := cs.takeWhile Char.isDigit
  match whole, cs.dropWhile Char.isDigit with
  | [], _ => false
  | '0' :: _ :: _, _ => false
  | _, '.' :: rest => (rest.head?.map Char.isDigit).getD false
  | _, _ => true

/-- A number; one without point and exponent is whole, unless it is a negative zero. -/
def readNumber (cs : List Char) : Option Json :=
  let fractional := cs.any (fun c => c = '.' || c = 'e' || c = 'E') || cs = ['-', '0']
  if !hasPlainDigits cs then none
  else if fractional then (Text.readFloat (String.ofList cs)).map .float
  else (String.ofList cs).toInt?.map .int

mutual

/-- A value and what follows it. -/
def readValue : Nat → List Char → Option (Json × List Char)
  | 0, _ => none
  | fuel + 1, cs =>
    match skip cs with
    | '\x7b' :: cs =>
      match skip cs with
      | '\x7d' :: cs => some (.object [], cs)
      | cs => (readMembers fuel cs).map fun (members, cs) => (.object members, cs)
    | '[' :: cs =>
      match skip cs with
      | ']' :: cs => some (.list [], cs)
      | cs => (readItems fuel cs).map fun (items, cs) => (.list items, cs)
    | '"' :: cs => (readText [] cs).map fun (s, cs) => (.text s, cs)
    | 't' :: 'r' :: 'u' :: 'e' :: cs => some (.bool true, cs)
    | 'f' :: 'a' :: 'l' :: 's' :: 'e' :: cs => some (.bool false, cs)
    | 'n' :: 'u' :: 'l' :: 'l' :: cs => some (.null, cs)
    | cs => (readNumber (cs.takeWhile isNumeric)).map fun j => (j, cs.dropWhile isNumeric)

/-- At least one item, and what follows the bracket that ends the list. -/
def readItems : Nat → List Char → Option (List Json × List Char)
  | 0, _ => none
  | fuel + 1, cs => do
    let (item, cs) ← readValue fuel cs
    match skip cs with
    | ']' :: cs => return ([item], cs)
    | ',' :: cs => do
      let (items, cs) ← readItems fuel cs
      return (item :: items, cs)
    | _ => none

/-- At least one member, and what follows the brace that ends the object. -/
def readMembers : Nat → List Char → Option (List (String × Json) × List Char)
  | 0, _ => none
  | fuel + 1, cs =>
    match skip cs with
    | '"' :: cs => do
      let (name, cs) ← readText [] cs
      match skip cs with
      | ':' :: cs => do
        let (value, cs) ← readValue fuel cs
        match skip cs with
        | '\x7d' :: cs => return ([(name, value)], cs)
        | ',' :: cs => do
          let (members, cs) ← readMembers fuel cs
          return ((name, value) :: members, cs)
        | _ => none
      | _ => none
    | _ => none

end

/-- The value of a text. -/
def read (s : String) : Option Json :=
  let cs := s.toList
  match readValue (2 * cs.length + 2) cs with
  | some (j, rest) => if (skip rest).isEmpty then some j else none
  | none => none

end PrinterMotion.Json
