/-
The sections of a printer configuration, with the values of settings that are left out.
-/
import PrinterMotion.Config.Lists
import PrinterMotion.Shaping.AxisShaper
import PrinterMotion.Trsync.Settings

namespace PrinterMotion

/-- The printer as a whole. -/
structure PrinterSection where
  kinematics : String
  maxVelocity : Float
  maxAccel : Float
  name : Option String
deriving Repr

/-- The printer section that is left out. -/
def PrinterSection.default : PrinterSection := ⟨"cartesian", 300.0, 3000.0, none⟩

/-- How far a motor moves what it drives. -/
structure Drive where
  rotationDistance : Float
  microsteps : UInt32
  fullSteps : UInt32
deriving Repr

/-- A drive with all settings left out. -/
def Drive.default : Drive := ⟨40.0, 16, 200⟩

/-- The distance of one step. -/
def Drive.stepDistance (d : Drive) : Float :=
  d.rotationDistance / (Scalar.ofNat d.fullSteps.toNat * Scalar.ofNat d.microsteps.toNat)

/-- A stepper of the toolhead. -/
structure StepperSection where
  drive : Drive
  /-- An axis letter, or the sign of a belt. -/
  axis : Option String
deriving Repr

/-- The bearings of three towers, in degrees, when none are given. -/
def defaultBearings : List Float := [210.0, 330.0, 90.0]

/-- The geometry of a linear delta; there are three bearings. -/
structure DeltaSection where
  radius : Float
  armLength : Float
  bearings : List Float
deriving Repr

/-- The geometry of a rotary delta; there are three bearings. -/
structure RotaryDeltaSection where
  shoulderRadius : Float
  shoulderHeight : Float
  upperArm : Float
  lowerArm : Float
  bearings : List Float
deriving Repr

/-- The anchors of a cable printer. -/
structure WinchSection where
  anchors : List (Coord Float)
deriving Repr

/-- The extruder. -/
structure ExtruderSection where
  drive : Drive
  pressureAdvance : Float
  smoothTime : Float
deriving Repr

/-- The smoothing time when none is given. -/
def defaultSmoothTime : Float := 0.040

/-- Shaper settings of one axis. -/
structure ShaperAxisSection where
  kinds : Option NameList
  freqs : NumberList
  dampings : NumberList
deriving Repr

/-- Input shaping. -/
structure ShaperSection where
  /-- The kind for axes without a kind of their own. -/
  kind : String
  x : ShaperAxisSection
  y : ShaperAxisSection
deriving Repr

/-- Shaper settings of an axis that are left out. -/
def ShaperAxisSection.default : ShaperAxisSection := ⟨none, .one 0.0, .one defaultDamping⟩

/-- The shaper kind when none is given. -/
def defaultShaperKind : String := "mzv"

/-- The dual carriage. -/
structure DualCarriageSection where
  axis : String
  /-- The stepper that drives the second carriage. -/
  stepper : String
  mode : CarriageMode
  offset : Float
deriving Repr

/-- A printer configuration; steppers are in the order of their names. -/
structure Config where
  printer : PrinterSection
  steppers : List (String × StepperSection)
  delta : Option DeltaSection
  rotaryDelta : Option RotaryDeltaSection
  winch : Option WinchSection
  extruder : Option ExtruderSection
  shaper : Option ShaperSection
  dualCarriage : Option DualCarriageSection
  trsync : TrsyncSettings Float
deriving Repr

/-- The configuration that says nothing. -/
def Config.default : Config :=
  ⟨.default, [], none, none, none, none, none, none, TrsyncSettings.default⟩

namespace ShaperSection

/-- The settings of an axis. -/
def axis? (s : ShaperSection) (axis : Char) : Except ConfigFault ShaperAxisSection :=
  if axis = 'x' then .ok s.x
  else if axis = 'y' then .ok s.y
  else .error (.noShaperAxis axis)

/-- The names of the kinds for an axis; there is at least one. -/
def kinds? (s : ShaperSection) (axis : Char) : Except ConfigFault (List String) := do
  let names := ((← s.axis? axis).kinds.map NameList.values).getD []
  return if names.isEmpty then [s.kind] else names

/-- The frequencies for an axis; there is at least one. -/
def freqs? (s : ShaperSection) (axis : Char) : Except ConfigFault (List Float) := do
  let values ← (← s.axis? axis).freqs.values
  return if values.isEmpty then [0.0] else values

/-- The damping ratios for an axis; there is at least one. -/
def dampings? (s : ShaperSection) (axis : Char) : Except ConfigFault (List Float) := do
  let values ← (← s.axis? axis).dampings.values
  return if values.isEmpty then [defaultDamping] else values

end ShaperSection

end PrinterMotion
