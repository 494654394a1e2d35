/-
Values of TOML documents.
-/

namespace PrinterMotion.Toml

/-- A TOML value. Tables keep their entries in the order of the document; dates and times are kept as
text. -/
inductive Value where
  | text (s : String)
  | integer (n : Int)
  | float (x : Float)
  | boolean (b : Bool)
  | datetime (s : String)
  | array (items : List Value)
  | table (entries : List (String × Value))
deriving Inhabited

/-- The entries of a table. -/
abbrev Entries := List (String × Value)

end PrinterMotion.Toml
