/-
Steppers that reach the toolhead through arms or cables: the towers of a linear delta, the shoulders of
a rotary delta and the winches of a cable printer.
-/
import PrinterMotion.Kinematics.Fault
import PrinterMotion.Geometry

namespace PrinterMotion

variable {α : Type} [Scalar α]

/-! ## Linear delta -/

/-- A vertical tower with a carriage that holds one end of an arm. -/
structure Tower (α : Type) where
  /-- The square of the arm's length. -/
  armSquare : α
  x : α
  y : α
deriving Repr

namespace Tower

/-- A tower at `(x, y)` with an arm of the given length. -/
@[specialize] def of? (arm x y : α) : Except (KinematicsError α) (Tower α) :=
  if (0.0 : α) < arm then .ok ⟨arm * arm, x, y⟩ else .error (.invalidParameter (.armLength arm))

/-- The square of the height of the carriage above the toolhead. -/
@[specialize] def heightSquare (t : Tower α) (c : Coord α) : α :=
  let dx := t.x - c.x
  let dy := t.y - c.y
  t.armSquare - dx * dx - dy * dy

/-- Whether the arm is long enough. -/
@[specialize] def reaches (t : Tower α) (c : Coord α) : Bool := (0.0 : α) ≤ t.heightSquare c

/-- The height of the carriage. -/
@[specialize] def height (t : Tower α) (c : Coord α) : α := Scalar.sqrt (t.heightSquare c) + c.z

/-- The towers at the given bearings, in degrees, on a circle around the origin. -/
@[specialize] def ring? (radius arm : α) (bearings : List α) :
    Except (KinematicsError α) (List (Tower α)) :=
  if arm ≤ radius then .error (.invalidParameter (.armWithinRadius arm radius))
  else bearings.mapM fun degrees =>
    let a := Scalar.radians degrees
    of? arm (Scalar.cos a * radius) (Scalar.sin a * radius)

end Tower

/-! ## Rotary delta -/

/-- A shoulder joint that turns an upper arm, whose elbow holds a lower arm. -/
structure Shoulder (α : Type) where
  cosBearing : α
  sinBearing : α
  radius : α
  height : α
  upper : α
  upperSquare : α
  lowerSquare : α
deriving Repr

namespace Shoulder

/-- A shoulder at a bearing around the vertical axis, in radians. -/
@[specialize] def of? (radius height bearing upper lower : α) :
    Except (KinematicsError α) (Shoulder α) :=
  if (0.0 : α) < upper ∧ (0.0 : α) < lower then
    .ok ⟨Scalar.cos bearing, Scalar.sin bearing, radius, height, upper, upper * upper, lower * lower⟩
  else .error (.invalidParameter (.shoulderArms upper lower))

/-- A point in the frame of the shoulder: the first axis points away from the centre, and the upper
arm turns in the plane of the first and the last axis. -/
@[specialize] def frame (s : Shoulder α) (c : Coord α) : Coord α :=
  ⟨c.x * s.cosBearing + c.y * s.sinBearing - s.radius, -c.x * s.sinBearing + c.y * s.cosBearing,
    c.z - s.height⟩

/-- The cosine of the angle between the upper arm and the direction to the point. -/
@[specialize] def elbowCosine (s : Shoulder α) (p : Coord α) : α :=
  let distSquare := p.x * p.x + p.y * p.y + p.z * p.z
  let inPlane := Scalar.sqrt (p.x * p.x + p.z * p.z)
  (s.upperSquare - s.lowerSquare + distSquare) / (2.0 * inPlane * s.upper)

/-- The angle of the upper arm, in radians. -/
@[specialize] def angle (s : Shoulder α) (c : Coord α) : α :=
  let p := s.frame c
  Scalar.atan2 p.z p.x + Scalar.acos (s.elbowCosine p)

end Shoulder

/-! ## Winches -/

/-- The length of a straight cable from an anchor to a point. -/
@[specialize] def cableLength (anchor c : Coord α) : α :=
  let dx := anchor.x - c.x
  let dy := anchor.y - c.y
  let dz := anchor.z - c.z
  Scalar.sqrt (dx * dx + dy * dy + dz * dz)

end PrinterMotion
