/-
Strings and keys. Basic strings have escapes, literal strings have none, and both have a form that runs
over several lines.
-/
import PrinterMotion.Toml.Scalar

namespace PrinterMotion.Toml

/-- Whether a character may stand in a comment or a string as it is; line ends are not among them. -/
def isPlain (c : Char) : Bool := c = '\t' || (c.toNat ≥ 0x20 && c.toNat ≠ 0x7F)

/-- The character with a code given in hexadecimal digits. -/
def scalarOf (digits : List Char) : Option Char :=
  if digits.all isHexDigit then
    let n := digits.foldl (fun n c => 16 * n + hexValue c) 0
    if n < 0xD800 ∨ (0xDFFF < n ∧ n < 0x110000) then some (Char.ofNat n) else none
  else none

/-- The character of a short escape. -/
def shortEscape (rules : Rules) : Char → Option Char
  | 'b' => some (Char.ofNat 8)
  | 't' => some '\t'
  | 'n' => some '\n'
  | 'f' => some (Char.ofNat 12)
  | 'r' => some '\r'
  | '"' => some '"'
  | '\\' => some '\\'
  | 'e' => if rules.shortCodes then some (Char.ofNat 0x1B) else none
  | _ => none

/-- The character of two hexadecimal digits, where it may be given like that. -/
def shortCode (rules : Rules) (digits : List Char) : Option Char :=
  if rules.shortCodes then scalarOf digits else none

/-- Puts a character in front of what was read. -/
def andThen (c : Char) (r : Option (List Char × List Char)) : Option (List Char × List Char) :=
  r.map fun (text, rest) => (c :: text, rest)

/-- The body of a basic string up to its closing quote. -/
def basicBody (rules : Rules) : List Char → Option (List Char × List Char)
  | '"' :: rest => some ([], rest)
  | '\\' :: 'x' :: a :: b :: rest => do andThen (← shortCode rules [a, b]) (basicBody rules rest)
  | '\\' :: 'u' :: a :: b :: c :: d :: rest => do
    andThen (← scalarOf [a, b, c, d]) (basicBody rules rest)
  | '\\' :: 'U' :: a :: b :: c :: d :: e :: f :: g :: h :: rest => do
    andThen (← scalarOf [a, b, c, d, e, f, g, h]) (basicBody rules rest)
  | '\\' :: e :: rest => do andThen (← shortEscape rules e) (basicBody rules rest)
  | c :: rest => if isPlain c then andThen c (basicBody rules rest) else none
  | [] => none

/-- The body of a literal string up to its closing apostrophe. -/
def literalBody : List Char → Option (List Char × List Char)
  | '\'' :: rest => some ([], rest)
  | c :: rest => if isPlain c then andThen c (literalBody rest) else none
  | [] => none

/-- Whether nothing but blanks stands in front of the next line end. -/
def lineEndsHere (cs : List Char) : Bool :=
  match cs.dropWhile fun c => c = ' ' || c = '\t' with
  | '\n' :: _ => true
  | '\r' :: '\n' :: _ => true
  | _ => false

/-- Puts a line end that is written with a carriage return in front of what was read. -/
def andThenLineEnd (rules : Rules) (r : Option (List Char × List Char)) :
    Option (List Char × List Char) :=
  if rules.keepsLineEnds then andThen '\r' (andThen '\n' r) else andThen '\n' r

/-- The body of a basic string over several lines, up to the last of its closing quotes; two more quotes
may stand in front of the closing ones. While `skipping`, blanks and line ends are left out. -/
def basicLines (rules : Rules) : (skipping : Bool) → List Char → Option (List Char × List Char)
  | _, '"' :: '"' :: '"' :: '"' :: '"' :: rest => some (['"', '"'], rest)
  | _, '"' :: '"' :: '"' :: '"' :: rest => some (['"'], rest)
  | _, '"' :: '"' :: '"' :: rest => some ([], rest)
  | _, '\\' :: 'x' :: a :: b :: rest => do
    andThen (← shortCode rules [a, b]) (basicLines rules false rest)
  | _, '\\' :: 'u' :: a :: b :: c :: d :: rest => do
    andThen (← scalarOf [a, b, c, d]) (basicLines rules false rest)
  | _, '\\' :: 'U' :: a :: b :: c :: d :: e :: f :: g :: h :: rest => do
    andThen (← scalarOf [a, b, c, d, e, f, g, h]) (basicLines rules false rest)
  | _, '\\' :: e :: rest =>
    if lineEndsHere (e :: rest) then basicLines rules true (e :: rest)
    else do andThen (← shortEscape rules e) (basicLines rules false rest)
  | skipping, '\r' :: '\n' :: rest =>
    if skipping then basicLines rules true rest else andThenLineEnd rules (basicLines rules false rest)
  | skipping, c :: rest =>
    if skipping && (c = ' ' || c = '\t' || c = '\n') then basicLines rules true rest
    else if c = '\n' || isPlain c then andThen c (basicLines rules false rest)
    else none
  | _, [] => none

/-- The body of a literal string over several lines, up to the last of its closing apostrophes. -/
def literalLines (rules : Rules) : List Char → Option (List Char × List Char)
  | '\'' :: '\'' :: '\'' :: '\'' :: '\'' :: rest => some (['\'', '\''], rest)
  | '\'' :: '\'' :: '\'' :: '\'' :: rest => some (['\''], rest)
  | '\'' :: '\'' :: '\'' :: rest => some ([], rest)
  | '\r' :: '\n' :: rest => andThenLineEnd rules (literalLines rules rest)
  | c :: rest => if c = '\n' || isPlain c then andThen c (literalLines rules rest) else none
  | [] => none

/-- Leaves out a line end right behind the opening quotes. -/
def skipFirstLineEnd : List Char → List Char
  | '\n' :: rest => rest
  | '\r' :: '\n' :: rest => rest
  | cs => cs

/-- Reads a string value, or nothing if there is no quote. -/
def readString (rules : Rules) (cs : List Char) : Option (Option (List Char × List Char)) :=
  match cs with
  | '"' :: '"' :: '"' :: rest => some (basicLines rules false (skipFirstLineEnd rest))
  | '\'' :: '\'' :: '\'' :: rest => some (literalLines rules (skipFirstLineEnd rest))
  | '"' :: rest => some (basicBody rules rest)
  | '\'' :: rest => some (literalBody rest)
  | _ => none

/-! ## Keys -/

/-- Leaves out blanks within a line. -/
def skipBlanks (cs : List Char) : List Char := cs.dropWhile fun c => c = ' ' || c = '\t'

/-- Characters of keys without quotes. -/
def isBareKeyChar (c : Char) : Bool := c.isAlphanum || c = '_' || c = '-'

/-- Reads one part of a key. -/
def readSimpleKey (rules : Rules) (cs : List Char) : Option (String × List Char) :=
  let read := match cs with
    | '"' :: rest => basicBody rules rest
    | '\'' :: rest => literalBody rest
    | _ =>
      let name := cs.takeWhile isBareKeyChar
      if name.isEmpty then none else some (name, cs.dropWhile isBareKeyChar)
  read.map fun (name, rest) => (String.ofList name, rest)

/-- Reads at most `parts` parts of a key with dots between them, and the blanks around them. -/
def readKeyParts (rules : Rules) : (parts : Nat) → List Char → Option (List String × List Char)
  | 0, _ => none
  | parts + 1, cs => do
    let (name, rest) ← readSimpleKey rules (skipBlanks cs)
    match skipBlanks rest with
    | '.' :: rest =>
      let (names, rest) ← readKeyParts rules parts rest
      some (name :: names, rest)
    | rest => some ([name], rest)

/-- Reads a key. -/
def readKey (rules : Rules) (cs : List Char) : Option (List String × List Char) :=
  readKeyParts rules rules.keyParts cs

end PrinterMotion.Toml
