/-
A configuration as a JSON value, with the names of its settings and with defaults filled in.
-/
import PrinterMotion.Config.Sections
import PrinterMotion.Json.Value

namespace PrinterMotion

/-- A number list as it was given. -/
def NumberList.toJson : NumberList → Json
  | one x => .number x
  | many xs => .array .number xs
  | text s => .text s

/-- A name list as it was given. -/
def NameList.toJson : NameList → Json
  | one s => .text s
  | many ss => .array .text ss

/-- A point as a list. -/
def Coord.toJson (c : Coord Float) : Json := .list [.number c.x, .number c.y, .number c.z]

/-- The settings of a drive. -/
def Drive.toMembers (d : Drive) : List (String × Json) :=
  [("rotation_distance", .number d.rotationDistance), ("microsteps", .ofNat d.microsteps.toNat),
    ("full_steps_per_rotation", .ofNat d.fullSteps.toNat)]

/-- The settings of the printer section. -/
def PrinterSection.toJson (p : PrinterSection) : Json :=
  .object [("kinematics", .text p.kinematics), ("max_velocity", .number p.maxVelocity),
    ("max_accel", .number p.maxAccel), ("printer_name", .optional .text p.name)]

/-- The settings of a stepper. -/
def StepperSection.toJson (s : StepperSection) : Json :=
  .object (s.drive.toMembers ++ [("axis", .optional .text s.axis)])

/-- The settings of a linear delta. -/
def DeltaSection.toJson (d : DeltaSection) : Json :=
  .object [("radius", .number d.radius), ("arm_length", .number d.armLength),
    ("angles", .array .number d.bearings)]

/-- The settings of a rotary delta. -/
def RotaryDeltaSection.toJson (d : RotaryDeltaSection) : Json :=
  .object [("shoulder_radius", .number d.shoulderRadius), ("shoulder_height", .number d.shoulderHeight),
    ("upper_arm_length", .number d.upperArm), ("lower_arm_length", .number d.lowerArm),
    ("angles", .array .number d.bearings)]

/-- The settings of a cable printer. -/
def WinchSection.toJson (w : WinchSection) : Json := .object [("anchors", .array Coord.toJson w.anchors)]

/-- The settings of an extruder. -/
def ExtruderSection.toJson (e : ExtruderSection) : Json :=
  .object (e.drive.toMembers ++ [("pressure_advance", .number e.pressureAdvance),
    ("pressure_advance_smooth_time", .number e.smoothTime)])

/-- The settings of input shaping. -/
def ShaperSection.toJson (s : ShaperSection) : Json :=
  .object [("shaper_type", .text s.kind), ("shaper_type_x", .optional NameList.toJson s.x.kinds),
    ("shaper_freq_x", s.x.freqs.toJson), ("damping_ratio_x", s.x.dampings.toJson),
    ("shaper_type_y", .optional NameList.toJson s.y.kinds), ("shaper_freq_y", s.y.freqs.toJson),
    ("damping_ratio_y", s.y.dampings.toJson)]

/-- The settings of a dual carriage. -/
def DualCarriageSection.toJson (d : DualCarriageSection) : Json :=
  .object [("axis", .text d.axis), ("stepper", .text d.stepper), ("mode", .text d.mode.word),
    ("offset", .number d.offset)]

/-- The settings of trigger synchronisation. -/
def TrsyncSettings.toJson (t : TrsyncSettings Float) : Json :=
  .object [("timeout", .number t.timeout), ("single_mcu_timeout", .number t.singleTimeout),
    ("min_extend_fraction", .number t.extendFraction)]

/-- All settings; sections that are left out are null. -/
def Config.toJson (c : Config) : Json :=
  .object [("printer", c.printer.toJson),
    ("stepper", .object (c.steppers.map fun (name, s) => (name, s.toJson))),
    ("delta", .optional DeltaSection.toJson c.delta),
    ("rotary_delta", .optional RotaryDeltaSection.toJson c.rotaryDelta),
    ("winch", .optional WinchSection.toJson c.winch),
    ("extruder", .optional ExtruderSection.toJson c.extruder),
    ("input_shaper", .optional ShaperSection.toJson c.shaper),
    ("dual_carriage", .optional DualCarriageSection.toJson c.dualCarriage),
    ("trsync", c.trsync.toJson)]

end PrinterMotion
