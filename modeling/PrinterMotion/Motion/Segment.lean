/-
A segment of motion: from its start on, the distance travelled along a fixed direction is a quadratic
function of time. A trapezoid is up to three segments in a row, one per phase.
-/
import PrinterMotion.Geometry

namespace PrinterMotion

/-- The part of a trapezoid that a segment belongs to; a hold belongs to none. -/
inductive Phase where
  | hold
  | accelerate
  | cruise
  | decelerate
deriving Repr, DecidableEq

/-- Motion over `[start, start + duration]` from `position` along `direction`. -/
structure Segment (α : Type) where
  start : α
  duration : α
  /-- Velocity along the direction at the start. -/
  velocity : α
  /-- Half the acceleration, the factor of the square of time. -/
  halfAccel : α
  position : Coord α
  direction : Coord α
  phase : Phase
deriving Repr, DecidableEq

namespace Segment

variable {α : Type} [Scalar α]

/-- Standing still at `position`. -/
def hold (start duration : α) (position : Coord α) : Segment α :=
  ⟨start, duration, 0.0, 0.0, position, Coord.origin, .hold⟩

/-- The time at which the segment ends. -/
@[specialize] def finish (s : Segment α) : α := s.start + s.duration

/-- Whether nothing moves. -/
@[specialize] def isStill (s : Segment α) : Bool := s.velocity == 0.0 && s.halfAccel == 0.0

/-- Distance travelled along the direction after `t` seconds. -/
@[specialize] def distanceAt (s : Segment α) (t : α) : α := (s.velocity + s.halfAccel * t) * t

/-- Velocity along the direction after `t` seconds. -/
@[specialize] def velocityAt (s : Segment α) (t : α) : α := s.velocity + 2.0 * s.halfAccel * t

/-- The point reached after `t` seconds. -/
@[specialize] def coordAt (s : Segment α) (t : α) : Coord α :=
  let d := s.distanceAt t
  ⟨s.position.x + s.direction.x * d, s.position.y + s.direction.y * d,
    s.position.z + s.direction.z * d⟩

/-- One component of the point reached after `t` seconds. -/
@[specialize] def axisAt (s : Segment α) (a : Axis) (t : α) : α :=
  s.position.get a + s.direction.get a * s.distanceAt t

theorem get_coordAt (s : Segment α) (a : Axis) (t : α) : (s.coordAt t).get a = s.axisAt a t := by
  cases a <;> rfl

/-- The point at which the segment ends. -/
@[specialize] def target (s : Segment α) : Coord α := s.coordAt s.duration

end Segment

end PrinterMotion
