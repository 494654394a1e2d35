/-
Texts set in columns of a fixed width. A text that is wider than its column is not cut.
-/

namespace PrinterMotion.Text

/-- A text with blanks behind it up to a width. -/
def padRight (width : Nat) (s : String) : String :=
  s ++ String.ofList (List.replicate (width - s.length) ' ')

/-- A text with blanks in front of it up to a width. -/
def padLeft (width : Nat) (s : String) : String :=
  String.ofList (List.replicate (width - s.length) ' ') ++ s

/-- A whole number with its sign; that of zero is a plus. -/
def withSign (n : Int) : String := if 0 ≤ n then "+" ++ toString n else toString n

end PrinterMotion.Text
