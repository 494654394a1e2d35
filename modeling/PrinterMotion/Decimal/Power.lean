/-
Powers of the two bases that numbers are written in.
-/

namespace PrinterMotion

/-- A power of ten. -/
abbrev tenTo (n : Nat) : Nat := Nat.pow 10 n

/-- A power of two. -/
abbrev twoTo (n : Nat) : Nat := Nat.pow 2 n

end PrinterMotion
