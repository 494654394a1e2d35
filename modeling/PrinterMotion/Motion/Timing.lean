/-
Planning one straight move from rest to rest: accelerate, cruise, decelerate.
-/
import PrinterMotion.Motion.Queue

namespace PrinterMotion

/-- The phases of a move that starts and ends at rest. -/
structure Timing (α : Type) where
  distance : α
  accelTime : α
  cruiseTime : α
  decelTime : α
  cruiseVelocity : α
  accel : α
deriving Repr, DecidableEq

namespace Timing

variable {α : Type} [Scalar α]

/-- The fastest move that exceeds neither limit. A short move turns from acceleration to deceleration
before it reaches `maxVelocity`. -/
def plan (distance maxVelocity accel : α) : Timing α :=
  let velocity := Scalar.min maxVelocity (Scalar.sqrt (distance * accel))
  let (accelTime, cruiseTime) : α × α :=
    if (0.0 : α) < velocity then
      let accelTime := velocity / accel
      (accelTime, (distance - velocity * accelTime) / velocity)
    else (0.0, 0.0)
  ⟨distance, accelTime, Scalar.max cruiseTime 0.0, accelTime, velocity, accel⟩

/-- The duration of the move. -/
def total (t : Timing α) : α := t.accelTime + t.cruiseTime + t.decelTime

/-- The move along a line, from a point in a direction. -/
def along (t : Timing α) (start : α) (position direction : Coord α) : Queue.Trapezoid α :=
  ⟨start, t.accelTime, t.cruiseTime, t.decelTime, position, direction, 0.0, t.cruiseVelocity, t.accel⟩

/-- The move with its distance, and so its speeds, multiplied by `ratio`. -/
def scaled (t : Timing α) (ratio : α) : Timing α :=
  { t with
    distance := t.distance * ratio
    cruiseVelocity := t.cruiseVelocity * ratio
    accel := t.accel * ratio }

end Timing

end PrinterMotion
