/-
Axes of the machine, points in its workspace, and sets of axes.
-/
import PrinterMotion.Scalar

namespace PrinterMotion

/-! ## Axes -/

/-- The three linear axes of the toolhead. -/
inductive Axis where
  | x
  | y
  | z
deriving Repr, DecidableEq

namespace Axis

/-- The axis a letter names, in either case. -/
def ofChar? (c : Char) : Option Axis :=
  if c = 'x' ∨ c = 'X' then some .x
  else if c = 'y' ∨ c = 'Y' then some .y
  else if c = 'z' ∨ c = 'Z' then some .z
  else none

/-- The small letter of the axis. -/
def letter : Axis → Char
  | .x => 'x'
  | .y => 'y'
  | .z => 'z'

theorem ofChar?_letter (a : Axis) : ofChar? a.letter = some a := by cases a <;> rfl

end Axis

/-! ## Points -/

/-- A point, or a direction, with one component per axis. -/
structure Coord (α : Type) where
  x : α
  y : α
  z : α
deriving Repr, DecidableEq

namespace Coord

variable {α : Type}

/-- The component along an axis. -/
def get (c : Coord α) : Axis → α
  | .x => c.x
  | .y => c.y
  | .z => c.z

/-- The point with one component replaced. -/
def set (c : Coord α) (a : Axis) (value : α) : Coord α :=
  match a with
  | .x => { c with x := value }
  | .y => { c with y := value }
  | .z => { c with z := value }

theorem get_set_self (c : Coord α) (a : Axis) (v : α) : (c.set a v).get a = v := by cases a <;> rfl

theorem get_set_ne (c : Coord α) {a b : Axis} (v : α) (h : b ≠ a) : (c.set a v).get b = c.get b := by
  cases a <;> cases b <;> first | rfl | exact absurd rfl h

/-- The origin of the workspace. -/
def origin [Scalar α] : Coord α := ⟨0.0, 0.0, 0.0⟩

end Coord

/-! ## Sets of axes -/

/-- A set of axes. -/
structure AxisSet where
  x : Bool
  y : Bool
  z : Bool
deriving Repr, DecidableEq

namespace AxisSet

/-- The set with one member. -/
def single : Axis → AxisSet
  | .x => ⟨true, false, false⟩
  | .y => ⟨false, true, false⟩
  | .z => ⟨false, false, true⟩

/-- The plane of the first two axes. -/
def xy : AxisSet := ⟨true, true, false⟩

/-- All three axes. -/
def all : AxisSet := ⟨true, true, true⟩

/-- Membership. -/
def has (s : AxisSet) : Axis → Bool
  | .x => s.x
  | .y => s.y
  | .z => s.z

/-- The set with an axis added. -/
def insert (s : AxisSet) : Axis → AxisSet
  | .x => { s with x := true }
  | .y => { s with y := true }
  | .z => { s with z := true }

/-- The set with an axis taken out. -/
def erase (s : AxisSet) : Axis → AxisSet
  | .x => { s with x := false }
  | .y => { s with y := false }
  | .z => { s with z := false }

@[simp] theorem has_single (a b : Axis) : (single a).has b = decide (a = b) := by
  cases a <;> cases b <;> rfl

@[simp] theorem has_insert (s : AxisSet) (a b : Axis) : (s.insert a).has b = (decide (a = b) || s.has b) := by
  cases a <;> cases b <;> simp [insert, has]

@[simp] theorem has_erase (s : AxisSet) (a b : Axis) : (s.erase a).has b = (!decide (a = b) && s.has b) := by
  cases a <;> cases b <;> simp [erase, has]

/-- Whether a direction has a component along an axis of the set. -/
@[specialize] def meets {α : Type} [Scalar α] (s : AxisSet) (direction : Coord α) : Bool :=
  (s.x && direction.x != 0.0) || (s.y && direction.y != 0.0) || (s.z && direction.z != 0.0)

end AxisSet

end PrinterMotion
