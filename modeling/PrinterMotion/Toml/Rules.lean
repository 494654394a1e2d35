/-
What documents may hold. Two versions of the language are in use: configurations keep to version 1.0, and
scenarios to version 1.1.
-/
namespace PrinterMotion.Toml

/-- What a reader of documents allows and how far it goes. -/
structure Rules where
  /-- Whether inline tables may run over several lines, hold comments and end in a comma. -/
  openTables : Bool
  /-- Whether strings have the escapes `\e`, and `\x` with two hexadecimal digits. -/
  shortCodes : Bool
  /-- Whether a time may be given without seconds. -/
  shortTimes : Bool
  /-- Whether strings over several lines keep their line ends as they are written. Otherwise each becomes a
  line feed. -/
  keepsLineEnds : Bool
  /-- Whether a negative number beyond the range of floats is infinite. Otherwise there is no such number,
  as there is no positive one. -/
  negativeOverflow : Bool
  /-- Whether dotted keys may add to a table that was made on the way to a header. -/
  extendsImplied : Bool
  /-- How deep arrays and inline tables may be nested. -/
  depth : Nat
  /-- How many parts a key may have. -/
  keyParts : Nat
deriving Repr

namespace Rules

/-- The rules of version 1.0. -/
def version10 : Rules := ⟨false, false, false, false, true, false, 79, 79⟩

/-- The rules of version 1.1. -/
def version11 : Rules := ⟨true, true, true, true, false, true, 80, 80⟩

end Rules

end PrinterMotion.Toml
