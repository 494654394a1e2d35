/-
Settings that hold one value or several: a number, a list of numbers or numbers in a text, and a name or
a list of names, each of which may be a list in a text.
-/
import PrinterMotion.Config.Fault
import PrinterMotion.Text.Number

namespace PrinterMotion

/-- One number or several. -/
inductive NumberList where
  | one (x : Float)
  | many (xs : List Float)
  | text (s : String)
deriving Repr

/-- The numbers in order; blank entries of a text are left out. -/
def NumberList.values : NumberList → Except ConfigFault (List Float)
  | one x => .ok [x]
  | many xs => .ok xs
  | text s => (Text.entries s).mapM fun item =>
    match Text.readFloat item with
    | some x => .ok x
    | none => .error (.notANumber item)

/-- One name or several. -/
inductive NameList where
  | one (s : String)
  | many (ss : List String)
deriving Repr

/-- The names in order; blank entries are left out. -/
def NameList.values : NameList → List String
  | one s => Text.entries s
  | many ss => ss.flatMap Text.entries

end PrinterMotion
