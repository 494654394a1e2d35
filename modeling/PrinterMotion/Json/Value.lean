/-
JSON values and their text. Members of an object keep their order. The text of a number that is not whole
is left to the caller, as summaries and tables write numbers in different ways.
-/
import PrinterMotion.Decimal.Layout
import PrinterMotion.Scalar

namespace PrinterMotion

/-- A JSON value. -/
inductive Json where
  | null
  | bool (b : Bool)
  | int (n : Int)
  | float (x : Float)
  | text (s : String)
  | list (items : List Json)
  | object (members : List (String × Json))
deriving Inhabited

namespace Json

/-- A number as a JSON value; one that is not finite has none. -/
def number (x : Float) : Json := if Scalar.isFinite x then .float x else .null

/-- A natural number. -/
def ofNat (n : Nat) : Json := .int n

/-- A value that may be missing. -/
def optional {β : Type} (f : β → Json) : Option β → Json
  | some b => f b
  | none => .null

/-- A list of values. -/
def array {β : Type} (f : β → Json) (bs : List β) : Json := .list (bs.map f)

/-- The member of an object with a name. -/
def member? : Json → String → Option Json
  | object members, name => members.lookup name
  | _, _ => none

/-- A digit of base sixteen, in lower case. -/
def hexDigit (n : Nat) : Char := (Nat.toDigits 16 n).getD 0 '0'

/-- A character inside a quoted text. -/
def quotedChar (c : Char) : List Char :=
  if c = '"' then ['\\', '"']
  else if c = '\\' then ['\\', '\\']
  else if c = '\n' then ['\\', 'n']
  else if c = '\t' then ['\\', 't']
  else if c = '\r' then ['\\', 'r']
  else if c.toNat = 8 then ['\\', 'b']
  else if c.toNat = 12 then ['\\', 'f']
  else if c.toNat < 32 then ['\\', 'u', '0', '0', hexDigit (c.toNat / 16), hexDigit (c.toNat % 16)]
  else [c]

/-- A text in quotes. -/
def quoted (s : String) : String := String.ofList ('"' :: s.toList.flatMap quotedChar ++ ['"'])

/-- How a JSON text is laid out. -/
structure Layout where
  /-- The text of a number that is not whole. -/
  number : Float → String
  /-- Whether each item stands on a line of its own, two blanks further in than what it is part of. -/
  lines : Bool

namespace Layout

/-- The start of a new line, or nothing. -/
def newLine (l : Layout) (depth : Nat) : String :=
  if l.lines then "\n" ++ String.ofList (List.replicate (2 * depth) ' ') else ""

/-- Items between brackets. -/
def bracketed (l : Layout) (depth : Nat) (opening closing : String) (items : List String) : String :=
  if items.isEmpty then opening ++ closing
  else
    opening ++ l.newLine (depth + 1) ++ ("," ++ l.newLine (depth + 1)).intercalate items ++
      l.newLine depth ++ closing

mutual

/-- The text of a value. -/
def render (l : Layout) (depth : Nat) : Json → String
  | .null => "null"
  | .bool b => if b then "true" else "false"
  | .int n => toString n
  | .float x => l.number x
  | .text s => quoted s
  | .list items => l.bracketed depth "[" "]" (l.renderItems (depth + 1) items)
  | .object members => l.bracketed depth "\x7b" "\x7d" (l.renderMembers (depth + 1) members)

/-- The texts of items. -/
def renderItems (l : Layout) (depth : Nat) : List Json → List String
  | [] => []
  | item :: rest => l.render depth item :: l.renderItems depth rest

/-- The texts of members. -/
def renderMembers (l : Layout) (depth : Nat) : List (String × Json) → List String
  | [] => []
  | (name, value) :: rest =>
    (quoted name ++ (if l.lines then ": " else ":") ++ l.render depth value) ::
      l.renderMembers depth rest

end

end Layout

/-- The text of a value on several lines. -/
def pretty (j : Json) : String := Layout.render ⟨Decimal.record, true⟩ 0 j

/-- The text of a value on one line. -/
def compact (j : Json) : String := Layout.render ⟨Decimal.record, false⟩ 0 j

end Json

end PrinterMotion
