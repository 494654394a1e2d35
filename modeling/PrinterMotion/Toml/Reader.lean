/-
Reading a TOML document: statements line by line, and values with their nesting.
-/
import PrinterMotion.Toml.Document
import PrinterMotion.Toml.Quoted

namespace PrinterMotion.Toml

/-- Leaves out a comment; the line end behind it stays. -/
def skipComment (cs : List Char) : Option (List Char) :=
  match cs with
  | '#' :: rest =>
    let rest := rest.dropWhile isPlain
    match rest with
    | [] => some rest
    | '\n' :: _ => some rest
    | '\r' :: '\n' :: _ => some rest
    | _ => none
  | _ => some cs

/-- Leaves out blanks, comments and line ends, of which there are at most `fuel`. -/
def skipLines : (fuel : Nat) → List Char → Option (List Char)
  | 0, cs => some cs
  | fuel + 1, cs =>
    match skipBlanks cs with
    | '\n' :: rest => skipLines fuel rest
    | '\r' :: '\n' :: rest => skipLines fuel rest
    | '#' :: rest => (skipComment ('#' :: rest)).bind (skipLines fuel)
    | rest => some rest

/-- Leaves out what may stand between the parts of an inline table. -/
def skipInside (rules : Rules) (cs : List Char) : Option (List Char) :=
  if rules.openTables then skipLines cs.length cs else some (skipBlanks cs)

mutual

/-- Reads a value. Both limits fall with every call: `fuel` bounds the work, `depth` the nesting. -/
def readValue (rules : Rules) : (fuel depth : Nat) → List Char → Option (Value × List Char)
  | 0, _, _ => none
  | fuel + 1, depth, cs =>
    match cs with
    | '[' :: rest =>
      match depth with
      | 0 => none
      | depth + 1 => (readItems rules fuel depth [] rest).map fun (items, rest) => (.array items, rest)
    | '\x7b' :: rest =>
      match depth with
      | 0 => none
      | depth + 1 => do
        match ← skipInside rules rest with
        | '\x7d' :: rest => some (.table [], rest)
        | rest =>
          let (entries, rest) ← readFields rules fuel depth [] rest
          return (← inlineTable rules entries, rest)
    | _ =>
      match readString rules cs with
      | some read => read.map fun (text, rest) => (.text (String.ofList text), rest)
      | none => readScalar rules cs

/-- Reads the items of an array up to its closing bracket; those read so far are in reverse. A comma
may follow the last one. -/
def readItems (rules : Rules) : (fuel depth : Nat) → List Value → List Char →
    Option (List Value × List Char)
  | 0, _, _, _ => none
  | fuel + 1, depth, acc, cs => do
    match ← skipLines cs.length cs with
    | ']' :: rest => some (acc.reverse, rest)
    | cs =>
      let (v, rest) ← readValue rules fuel depth cs
      match ← skipLines rest.length rest with
      | ',' :: rest => readItems rules fuel depth (v :: acc) rest
      | ']' :: rest => some ((v :: acc).reverse, rest)
      | _ => none

/-- Reads the entries of an inline table up to its closing brace; those read so far are in reverse. A
comma may follow the last one where tables are open. -/
def readFields (rules : Rules) : (fuel depth : Nat) → List (List String × Value) → List Char →
    Option (List (List String × Value) × List Char)
  | 0, _, _, _ => none
  | fuel + 1, depth, acc, cs => do
    let (key, rest) ← readKey rules cs
    let rest ← expect '=' (← skipInside rules rest)
    let (v, rest) ← readValue rules fuel depth (← skipInside rules rest)
    match ← skipInside rules rest with
    | ',' :: rest =>
      match rules.openTables, ← skipInside rules rest with
      | true, '\x7d' :: rest => some (((key, v) :: acc).reverse, rest)
      | _, rest => readFields rules fuel depth ((key, v) :: acc) rest
    | '\x7d' :: rest => some (((key, v) :: acc).reverse, rest)
    | _ => none

end

/-- Reads the end of a line: blanks, a comment, and a line end or the end of the document. -/
def readLineEnd (cs : List Char) : Option (List Char) :=
  match skipComment (skipBlanks cs) with
  | some [] => some []
  | some ('\n' :: rest) => some rest
  | some ('\r' :: '\n' :: rest) => some rest
  | _ => none

/-- Reads one statement up to the end of its line. -/
def readStatement (rules : Rules) (cs : List Char) : Option (Statement × List Char) :=
  match cs with
  | '[' :: '[' :: rest => do
    let (path, rest) ← readKey rules rest
    let rest ← expect ']' (← expect ']' rest)
    return (.arrayHeader path, ← readLineEnd rest)
  | '[' :: rest => do
    let (path, rest) ← readKey rules rest
    let rest ← expect ']' rest
    return (.header path, ← readLineEnd rest)
  | _ => do
    let (key, rest) ← readKey rules cs
    let rest ← expect '=' rest
    let (v, rest) ← readValue rules (2 * rest.length + 2) rules.depth (skipBlanks rest)
    return (.entry key v, ← readLineEnd rest)

/-- Reads at most `fuel` statements; those read so far are in reverse. -/
def readStatements (rules : Rules) : (fuel : Nat) → List Statement → List Char → Option (List Statement)
  | 0, acc, cs => if cs.isEmpty then some acc.reverse else none
  | fuel + 1, acc, cs => do
    match ← skipLines cs.length cs with
    | [] => some acc.reverse
    | cs =>
      let (s, rest) ← readStatement rules cs
      readStatements rules fuel (s :: acc) rest

/-- Leaves out a byte order mark. -/
def skipMark : List Char → List Char
  | '\uFEFF' :: rest => rest
  | cs => cs

/-- Reads a document; a byte order mark in front of it is left out. -/
def read (rules : Rules) (document : String) : Option Entries :=
  let cs := skipMark document.toList
  (readStatements rules (cs.length + 1) [] cs).bind (ofStatements rules)

end PrinterMotion.Toml
