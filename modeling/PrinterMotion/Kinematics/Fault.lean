/-
What can be wrong with the parameters of a stepper model, and the wording of each case.
-/
import PrinterMotion.Decimal.Layout

namespace PrinterMotion

/-- Printer kinematics that a configuration can select. -/
inductive Family where
  | cartesian
  | coreXY
  | coreXZ
  | delta
  | rotaryDelta
  | winch
  | none
deriving Repr, DecidableEq

/-- Display name of a family. -/
def Family.title : Family → String
  | .cartesian => "Cartesian"
  | .coreXY => "CoreXY"
  | .coreXZ => "CoreXZ"
  | .delta => "Delta"
  | .rotaryDelta => "RotaryDelta"
  | .winch => "Winch"
  | .none => "None"

/-- Why a parameter is refused. -/
inductive ParameterFault (α : Type) where
  | armLength (length : α)
  | armWithinRadius (arm radius : α)
  | shoulderArms (upper lower : α)
  | pressureAdvance (advance smoothTime : α)
  | tooManyPulses (count limit : Nat)
  | pulseCounts (wanted amplitudes times : Nat)
  | amplitudeSum
  | neitherXNorY (model : String)
  | unknownFamily (name : String)
  | axisToken (token : String)
  | ownSection (family : Family)
  | notAnExtruder
  | notADualCarriage
deriving Repr

/-- The wording of a refused parameter. -/
def ParameterFault.message : ParameterFault Float → String
  | .armLength length => s!"delta arm length must be > 0, got {Decimal.plain length}"
  | .armWithinRadius arm radius =>
    s!"delta arm length {Decimal.plain arm} must exceed radius {Decimal.plain radius}"
  | .shoulderArms upper lower =>
    "rotary delta arm lengths must be > 0 (upper=" ++ Decimal.plain upper ++ ", lower=" ++
      Decimal.plain lower ++ ")"
  | .pressureAdvance advance smoothTime =>
    s!"pressure advance {Decimal.plain advance} and smooth time {Decimal.plain smoothTime} must be >= 0"
  | .tooManyPulses count limit => s!"shaper has {count} pulses, at most {limit} supported"
  | .pulseCounts wanted amplitudes times =>
    s!"shaper needs {wanted} amplitudes and times, got {amplitudes} and {times}"
  | .amplitudeSum => "shaper amplitudes must have a non-zero sum"
  | .neitherXNorY model => s!"{model} kinematics moves neither X nor Y"
  | .unknownFamily name => s!"unknown kinematics '{name}'"
  | .axisToken token => s!"expected a single axis character, got '{token}'"
  | .ownSection family => s!"{family.title} steppers are built from their geometry section"
  | .notAnExtruder => "not an extruder"
  | .notADualCarriage => "not a dual carriage"

/-- Why a model cannot be built or changed. -/
inductive KinematicsError (α : Type) where
  | invalidAxis (axis : Char)
  | invalidParameter (fault : ParameterFault α)
deriving Repr

/-- The wording of an error. -/
def KinematicsError.message : KinematicsError Float → String
  | .invalidAxis axis => s!"Invalid axis '{axis}'"
  | .invalidParameter fault => s!"Invalid kinematic parameter: {fault.message}"

end PrinterMotion
