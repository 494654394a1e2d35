/-
Stepper models: the position of one stepper as a function of the toolhead's motion. A model is a base
geometry or a wrapper around another model, which transforms or shapes the motion before it is handed
on. Besides its position a model declares which axes can move it, and for how long before and after
such motion its position still changes.
-/
import PrinterMotion.Kinematics.Arms
import PrinterMotion.Kinematics.Basic
import PrinterMotion.Kinematics.PressureAdvance
import PrinterMotion.Kinematics.Pulses

namespace PrinterMotion

variable {α : Type}

/-- The transform of a dual carriage: each of the first two axes is scaled and moved. -/
structure Carriage (α : Type) where
  xScale : α
  xOffset : α
  yScale : α
  yOffset : α
  /-- The axes that move the carriage; an axis with scale zero is parked. -/
  axes : AxisSet
deriving Repr

/-- The pulse trains of an input shaper. -/
structure Shaping (α : Type) where
  x : PulseTrain α
  y : PulseTrain α
deriving Repr

/-- The position function of one stepper. -/
inductive Model (α : Type) where
  /-- The stepper follows one axis. -/
  | linear (axis : Axis)
  /-- A belt that adds the second axis to the first, or takes it away. -/
  | coreXY (plus : Bool)
  /-- A belt that adds the third axis to the first, or takes it away. -/
  | coreXZ (plus : Bool)
  | tower (t : Tower α)
  | shoulder (s : Shoulder α)
  | winch (anchor : Coord α)
  | extruder (pa : PressureAdvance α)
  | dualCarriage (c : Carriage α) (inner : Model α)
  | inputShaper (s : Shaping α) (inner : Model α)
deriving Repr

namespace Model

/-- The name of the model in messages. -/
def name : Model α → String
  | linear _ => "cartesian"
  | coreXY _ => "corexy"
  | coreXZ _ => "corexz"
  | tower _ => "delta"
  | shoulder _ => "rotary_delta"
  | winch _ => "winch"
  | extruder _ => "extruder"
  | dualCarriage .. => "dual_carriage"
  | inputShaper .. => "input_shaper"

/-- The axes of toolhead motion that move the stepper. -/
def axes : Model α → AxisSet
  | linear a => .single a
  | coreXY _ => .xy
  | coreXZ _ => ⟨true, false, true⟩
  | tower _ | shoulder _ | winch _ => .all
  | extruder _ => .single .x
  | dualCarriage c _ => c.axes
  | inputShaper _ inner => inner.axes

/-- The wrapped model, if there is one. -/
def inner? : Model α → Option (Model α)
  | dualCarriage _ inner | inputShaper _ inner => some inner
  | _ => none

end Model

variable [Scalar α]

/-! ## Wrappers -/

namespace Carriage

/-- The transform that changes nothing. -/
def identity (axes : AxisSet) : Carriage α := ⟨1.0, 0.0, 1.0, 0.0, axes⟩

/-- A segment of toolhead motion as the carriage makes it. -/
@[specialize] def apply (c : Carriage α) (s : Segment α) : Segment α :=
  { s with
    position :=
      { s.position with
        x := s.position.x * c.xScale + c.xOffset
        y := s.position.y * c.yScale + c.yOffset }
    direction :=
      { s.direction with x := s.direction.x * c.xScale, y := s.direction.y * c.yScale } }

/-- Sets the transform of one axis. Scale zero parks the axis; any other scale lets it move the carriage
again if it moves the wrapped model, whose axes are given. -/
@[specialize] def setTransform (c : Carriage α) (innerAxes : AxisSet) (axis : Char) (scale offset : α) :
    Except (KinematicsError α) (Carriage α) :=
  let park (a : Axis) : AxisSet :=
    if scale == (0.0 : α) then c.axes.erase a
    else if innerAxes.has a then c.axes.insert a
    else c.axes
  if axis = 'x' then .ok { c with xScale := scale, xOffset := offset, axes := park .x }
  else if axis = 'y' then .ok { c with yScale := scale, yOffset := offset, axes := park .y }
  else .error (.invalidAxis axis)

/-- Scale and offset of an axis. -/
def transform? (c : Carriage α) (axis : Char) : Option (α × α) :=
  if axis = 'x' then some (c.xScale, c.xOffset)
  else if axis = 'y' then some (c.yScale, c.yOffset)
  else none

/-- The same transform around another model, whose axes are given. -/
@[specialize] def rebind (c : Carriage α) (innerAxes : AxisSet) : Carriage α :=
  let axes := if c.xScale == (0.0 : α) then innerAxes.erase .x else innerAxes
  { c with axes := if c.yScale == (0.0 : α) then axes.erase .y else axes }

end Carriage

namespace Shaping

/-- No pulses. -/
def off : Shaping α := ⟨[], []⟩

/-- The pulses of an axis; the third axis is never shaped. -/
def pulses? (s : Shaping α) : Axis → Option (PulseTrain α)
  | .x => some s.x
  | .y => some s.y
  | .z => none

/-- Sets the pulses of one axis from shaper parameters. An axis that does not move the wrapped model,
whose axes are given, and an axis whose parameters are refused are left unshaped. -/
@[specialize] def setAxis (s : Shaping α) (innerAxes : AxisSet) (axis : Char) (n : Nat)
    (amplitudes times : List α) : Shaping α × Option (KinematicsError α) :=
  let train (a : Axis) : PulseTrain α × Option (KinematicsError α) :=
    if innerAxes.has a then
      match PulseTrain.ofShaper n amplitudes times with
      | .ok train => (train, none)
      | .error fault => ([], some (.invalidParameter fault))
    else ([], none)
  if axis = 'x' then
    let (train, error) := train .x
    ({ s with x := train }, error)
  else if axis = 'y' then
    let (train, error) := train .y
    ({ s with y := train }, error)
  else (s, some (.invalidAxis axis))

/-- The same pulses around another model, for the axes that move it. -/
def rebind (s : Shaping α) (innerAxes : AxisSet) : Shaping α :=
  ⟨if innerAxes.x then s.x else [], if innerAxes.y then s.y else []⟩

/-- How far the pulses of the axes that move the wrapped model look ahead and look behind. -/
@[specialize] def windows (s : Shaping α) (innerAxes : AxisSet) : α × α :=
  let widen (w : α × α) (moves : Bool) (train : PulseTrain α) : α × α :=
    if moves && !train.isEmpty then
      (Scalar.max w.1 train.lookAhead, Scalar.max w.2 train.lookBehind)
    else w
  widen (widen (0.0, 0.0) innerAxes.x s.x) innerAxes.y s.y

/-- The segment under the cursor, standing on the shaped axes at the shaped position of `time`. -/
@[specialize] def apply (s : Shaping α) (c : Cursor α) (time : α) : Segment α :=
  let here := c.current
  let here :=
    if s.x.isEmpty then here
    else
      { here with
        position := { here.position with x := s.x.shape c .x time }
        direction := { here.direction with x := 0.0 } }
  if s.y.isEmpty then here
  else
    { here with
      position := { here.position with y := s.y.shape c .y time }
      direction := { here.direction with y := 0.0 } }

end Shaping

/-! ## Positions and windows -/

namespace Model

/-- The position of the stepper `time` seconds into the place of the cursor. A point out of the reach of
an arm has no position. -/
@[specialize] def position : Model α → Cursor α → α → α
  | linear a, c, time => c.current.axisAt a time
  | coreXY plus, c, time =>
    let p := c.current.coordAt time
    if plus then p.x + p.y else p.x - p.y
  | coreXZ plus, c, time =>
    let p := c.current.coordAt time
    if plus then p.x + p.z else p.x - p.z
  | tower t, c, time => t.height (c.current.coordAt time)
  | shoulder s, c, time => s.angle (c.current.coordAt time)
  | winch anchor, c, time => cableLength anchor (c.current.coordAt time)
  | extruder pa, c, time => pa.position c time
  | dualCarriage carriage inner, c, time =>
    inner.position (c.withCurrent (carriage.apply c.current)) time
  | inputShaper s inner, c, time =>
    if s.x.isEmpty && s.y.isEmpty then inner.position c time
    else inner.position (c.withCurrent (s.apply c time)) time

/-- The position of the stepper while the toolhead stands at a point. -/
@[specialize] def positionAt (m : Model α) (p : Coord α) : α :=
  let s := Segment.hold 0.0 holdTime p
  m.position (.single s) (0.5 * s.duration)

/-- Seconds before motion of its axes from which on the position can change. -/
@[specialize] def before : Model α → α
  | extruder pa => pa.halfSmooth
  | dualCarriage _ inner => inner.before
  | inputShaper s inner => (s.windows inner.axes).1
  | _ => 0.0

/-- Seconds after motion of its axes until which the position can change. -/
@[specialize] def after : Model α → α
  | extruder pa => pa.halfSmooth
  | dualCarriage _ inner => inner.after
  | inputShaper s inner => (s.windows inner.axes).2
  | _ => 0.0

/-- The larger of the two windows: how far around motion the stepper has to be scanned. -/
@[specialize] def scanWindow (m : Model α) : α := Scalar.max m.before m.after

/-- What step generation knows of the model. -/
@[specialize] def kinematics (m : Model α) : Kinematics α :=
  ⟨m.name, m.axes, m.before, m.after, m.position, Scalar.isFinite⟩

/-! ## Wrapping -/

/-- Puts a model on a carriage. -/
def onCarriage (m : Model α) : Model α := dualCarriage (Carriage.identity m.axes) m

/-- A shaper needs a model that moves along one of the first two axes. -/
def checkShapeable (m : Model α) : Except (KinematicsError α) Unit :=
  if m.axes.x || m.axes.y then .ok () else .error (.invalidParameter (.neitherXNorY m.name))

/-- Puts an input shaper without pulses around a model. -/
def shaped? (m : Model α) : Except (KinematicsError α) (Model α) :=
  m.checkShapeable.map fun _ => inputShaper Shaping.off m

end Model

end PrinterMotion
