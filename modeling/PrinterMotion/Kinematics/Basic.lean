/-
What step generation knows of the model of a stepper. The position may be any function of the motion, and
it may be none where the motion leaves the reach of the model; a model promises that it changes only while
motion of the named axes is under way, and for the given times before and after it.
-/
import PrinterMotion.Motion.Cursor

namespace PrinterMotion

/-- A position function with the motion that can change the position. -/
structure Kinematics (α : Type) where
  /-- The name of the model in messages. -/
  name : String
  /-- The axes of toolhead motion that move the stepper. -/
  axes : AxisSet
  /-- Seconds before motion of its axes from which on the position can change. -/
  before : α
  /-- Seconds after motion of its axes until which the position can change. -/
  after : α
  /-- The position a number of seconds into the place of a cursor. -/
  position : Cursor α → α → α
  /-- Whether a value of `position` is one. Out of its reach a model has a value that is not. -/
  isPosition : α → Bool

end PrinterMotion
