/-
Operating modes of a dual carriage.
-/
import PrinterMotion.Scalar

namespace PrinterMotion

/-- What the second carriage does. -/
inductive CarriageMode where
  /-- Only the primary carriage moves; the second one is parked. -/
  | primary
  /-- The second carriage moves along. -/
  | copy
  /-- The second carriage moves the opposite way. -/
  | mirror
deriving Repr, DecidableEq

namespace CarriageMode

/-- The number of the mode. -/
def index : CarriageMode → Nat
  | primary => 0
  | copy => 1
  | mirror => 2

/-- The mode with a number. -/
def ofIndex? : Nat → Option CarriageMode
  | 0 => some primary
  | 1 => some copy
  | 2 => some mirror
  | _ => none

theorem ofIndex?_index (m : CarriageMode) : ofIndex? m.index = some m := by cases m <;> rfl

/-- The name of the mode in reports. -/
def name : CarriageMode → String
  | primary => "PRIMARY"
  | copy => "COPY"
  | mirror => "MIRROR"

/-- The mode of a configuration word. -/
def ofWord? (word : String) : Option CarriageMode :=
  match word with
  | "primary" => some primary
  | "copy" => some copy
  | "mirror" => some mirror
  | _ => none

/-- The configuration word of the mode. -/
def word : CarriageMode → String
  | primary => "primary"
  | copy => "copy"
  | mirror => "mirror"

theorem ofWord?_word (m : CarriageMode) : ofWord? m.word = some m := by cases m <;> rfl

/-- The scale of the carriage's axis in the mode; zero parks it. -/
def scale {α : Type} [Scalar α] : CarriageMode → α
  | primary => 0.0
  | copy => 1.0
  | mirror => -1.0

end CarriageMode

end PrinterMotion
