/-
The settings that a scenario is decoded from. A key of the document may be a path such as
`mcu[0].name`, which leads to a setting in the depth. Settings are put in one behind the other, and what is
missing on the way to one is made.
-/
import PrinterMotion.Toml.Quoted

namespace PrinterMotion

/-- The value of a setting. -/
inductive Setting where
  /-- Nothing: a place of a list that was passed over. -/
  | missing
  | text (s : String)
  | integer (n : Int)
  | float (x : Float)
  | boolean (b : Bool)
  | list (items : List Setting)
  | table (entries : List (String × Setting))
deriving Inhabited

namespace Setting

/-! ## From a document -/

mutual

/-- The setting of a value of a document. A date or time is a text. -/
def ofValue : Toml.Value → Setting
  | .text s | .datetime s => .text s
  | .integer n => .integer n
  | .float x => .float x
  | .boolean b => .boolean b
  | .array items => .list (ofItems items)
  | .table entries => .table (ofEntries entries)

/-- The settings of the items of an array. -/
def ofItems : List Toml.Value → List Setting
  | [] => []
  | v :: rest => ofValue v :: ofItems rest

/-- The settings of the entries of a table. -/
def ofEntries : List (String × Toml.Value) → List (String × Setting)
  | [] => []
  | (key, v) :: rest => (key, ofValue v) :: ofEntries rest

end

/-! ## Putting in -/

/-- The entries of a table; other settings have none. -/
def entries : Setting → List (String × Setting)
  | .table es => es
  | _ => []

/-- The items of a list; other settings have none. -/
def items : Setting → List Setting
  | .list xs => xs
  | _ => []

/-- The entry of a key. -/
def get (key : String) (es : List (String × Setting)) : Setting := (es.lookup key).getD .missing

/-- Replaces the entry of a key, or adds it at the end. -/
def insert (key : String) (s : Setting) : List (String × Setting) → List (String × Setting)
  | [] => [(key, s)]
  | (k, old) :: rest => if k = key then (k, s) :: rest else (k, old) :: insert key s rest

mutual

/-- Puts a setting in the place of an old one. A table adds its entries to those of an old table. -/
def put (new old : Setting) : Setting :=
  match new with
  | .table es => .table (putEntries es old.entries)
  | s => s

/-- Puts entries into a table. -/
def putEntries : List (String × Setting) → List (String × Setting) → List (String × Setting)
  | [], old => old
  | (key, s) :: rest, old => putEntries rest (insert key (put s (get key old)) old)

end

/-! ## Paths -/

/-- A step on the way to a setting. -/
inductive Step where
  | key (name : String)
  | place (index : Int)
deriving Repr, DecidableEq

/-- How many items a list can have. -/
def maxItems : Nat := twoTo 24

/-- A place of a list, in a list that reaches it. A place below zero is counted from the end, and a list that
does not reach a place is made longer on that side, if it can be. -/
def reach (index : Int) (xs : List Setting) : Option (Nat × List Setting) :=
  let place := if index < 0 then index + xs.length else index
  let front := (-place).toNat
  let behind := place.toNat + 1 - (front + xs.length)
  if front + xs.length + behind ≤ maxItems then
    some (place.toNat, List.replicate front .missing ++ xs ++ List.replicate behind .missing)
  else none

/-- Changes the setting at the end of a path. A setting that does not have the kind that a step needs is
replaced by an empty one that has. -/
def alter (f : Setting → Setting) : List Step → Setting → Option Setting
  | [], s => some (f s)
  | .key name :: path, s => do
    let inner ← alter f path (get name s.entries)
    return .table (insert name inner s.entries)
  | .place index :: path, s => do
    let (place, xs) ← reach index s.items
    let inner ← alter f path (xs.getD place .missing)
    return .list (xs.set place inner)

/-- Reads the number of a place, which fits a signed 64-bit word, and the bracket behind it. -/
def readPlace (cs : List Char) : Option (Int × List Char) :=
  let (negative, cs) := match Toml.skipBlanks cs with
    | '-' :: rest => (true, rest)
    | rest => (false, rest)
  let digits := cs.takeWhile Char.isDigit
  let n : Int := Text.digitsValue digits
  let index := if negative then -n else n
  match Toml.skipBlanks (cs.dropWhile Char.isDigit) with
  | ']' :: rest =>
    if digits.isEmpty ∨ index < -(twoTo 63 : Int) ∨ (twoTo 63 : Int) ≤ index then none
    else some (index, rest)
  | _ => none

/-- Reads at most `fuel` steps: a name behind a point, with the characters of a bare key, or a place in
brackets. -/
def readSteps : (fuel : Nat) → List Char → Option (List Step)
  | _, [] => some []
  | 0, _ => none
  | fuel + 1, '.' :: cs =>
    let name := cs.takeWhile Toml.isBareKeyChar
    if name.isEmpty then none
    else (readSteps fuel (cs.drop name.length)).map (.key (String.ofList name) :: ·)
  | fuel + 1, '[' :: cs => do
    let (index, rest) ← readPlace cs
    (readSteps fuel rest).map (.place index :: ·)
  | _, _ => none

/-- The path that a key stands for. A key that is not written like one is a name as a whole. -/
def path (key : String) : List Step :=
  let cs := '.' :: key.toList
  (readSteps cs.length cs).getD [.key key]

/-- The settings of a document, put in one behind the other; none if a list would be too long. -/
def ofDocument (document : List (String × Toml.Value)) : Option Setting :=
  document.foldlM (fun s (key, v) => alter (put (ofValue v)) (path key) s) (.table [])

end Setting

end PrinterMotion
