/-
What can be wrong with a configuration whose text is well formed, and the wording of each case.
-/
import PrinterMotion.Kinematics.Fault
import PrinterMotion.Shaping.Kind

namespace PrinterMotion

/-- Why a configuration is refused. -/
inductive ConfigFault where
  | printerLimits
  | stepperRatio (stepper : String)
  /-- The kinematics needs a section of the same name. -/
  | requiresSection (kinematics : String)
  | deltaArm
  | rotaryArms
  | noAnchors
  | unknownKinematics (name : String)
  | pressureAdvance
  | notANumber (item : String)
  | noShaperAxis (axis : Char)
  | shaperFrequency (axis : Char) (freq : Float)
  | shaperDamping (axis : Char) (ratio : Float)
  | carriageAxis (axis : String)
  | carriageStepper (stepper : String)
  | trsyncTimeouts
  | extendFraction
  | shaper (fault : ShaperFault Float)
  | stepperAxis (stepper : String)
  | missingSection (name : String)
  | stepperCount (kinematics : String) (wanted configured : Nat)
deriving Repr

/-- The wording of a fault, without the words common to all. -/
def ConfigFault.detail : ConfigFault → String
  | .printerLimits => "printer max_velocity and max_accel must be > 0"
  | .stepperRatio stepper =>
    s!"Stepper '{stepper}' must have positive rotation_distance, microsteps and full_steps_per_rotation"
  | .requiresSection kinematics => s!"{kinematics} kinematics requires a [{kinematics}] section"
  | .deltaArm => "delta arm_length must exceed radius, and radius must be > 0"
  | .rotaryArms => "rotary_delta arm lengths must be > 0"
  | .noAnchors => "winch needs at least one anchor"
  | .unknownKinematics name => s!"Unknown kinematics '{name}'"
  | .pressureAdvance => "pressure_advance and pressure_advance_smooth_time must be >= 0"
  | .notANumber item => s!"'{item}' is not a number"
  | .noShaperAxis axis => s!"No input shaper settings for axis '{axis}'"
  | .shaperFrequency axis freq =>
    s!"Shaper frequency for axis '{axis}' must be >= 0: {Decimal.plain freq}"
  | .shaperDamping axis ratio =>
    s!"Shaper damping for axis '{axis}' must be between 0 and 1: {Decimal.plain ratio}"
  | .carriageAxis axis => s!"dual_carriage axis must be 'x' or 'y', got '{axis}'"
  | .carriageStepper stepper => s!"dual_carriage stepper '{stepper}' is not defined"
  | .trsyncTimeouts => "trsync timeouts must be > 0"
  | .extendFraction => "trsync min_extend_fraction must be in [0, 1)"
  | .shaper fault => fault.message
  | .stepperAxis stepper => s!"Stepper '{stepper}' needs an axis"
  | .missingSection name => s!"missing [{name}] section"
  | .stepperCount kinematics wanted configured =>
    s!"{kinematics} kinematics needs {wanted} steppers, {configured} configured"

/-- The wording of a fault. -/
def ConfigFault.message (f : ConfigFault) : String := s!"Invalid configuration: {f.detail}"

end PrinterMotion
