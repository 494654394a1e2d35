/-
Building the steppers of a machine from its configuration.
-/
import PrinterMotion.Config.Validate
import PrinterMotion.Kinematics.Family
import PrinterMotion.Kinematics.Layers
import PrinterMotion.Stepper.Basic

namespace PrinterMotion

/-- Why a machine cannot be built. -/
inductive MachineError where
  | config (fault : ConfigFault)
  | kinematics (error : KinematicsError Float)
  /-- The shapers cannot be made. -/
  | shaping (fault : ConfigFault)
deriving Repr

/-- The wording of an error. -/
def MachineError.message : MachineError → String
  | .config fault => s!"Configuration error: {fault.message}"
  | .kinematics error => s!"Kinematics error: {error.message}"
  | .shaping fault => fault.message

namespace Config

/-- A result whose error is a fault of the configuration. -/
def faulty {β : Type} : Except ConfigFault β → Except MachineError β
  | .ok b => .ok b
  | .error fault => .error (.config fault)

/-- A result whose error is one of kinematics. -/
def kinematic {β : Type} : Except (KinematicsError Float) β → Except MachineError β
  | .ok b => .ok b
  | .error e => .error (.kinematics e)

/-- The axis token of a stepper: the one given, or the character behind `stepper_` in its name. -/
def axisToken (name : String) (s : StepperSection) : Except ConfigFault String :=
  match s.axis with
  | some axis => .ok axis
  | none =>
    match name.toList with
    | ['s', 't', 'e', 'p', 'p', 'e', 'r', '_', c] =>
      if c.toNat < 128 then .ok c.toString else .error (.stepperAxis name)
    | _ => .error (.stepperAxis name)

/-- A geometry section that must be there. -/
def geometry {β : Type} (name : String) : Option β → Except ConfigFault β
  | some b => .ok b
  | none => .error (.missingSection name)

/-- Checks that there are as many steppers as the geometry has places. -/
def checkCount (c : Config) (kinematics : String) (wanted : Nat) : Except ConfigFault Unit :=
  if c.steppers.length = wanted then .ok ()
  else .error (.stepperCount kinematics wanted c.steppers.length)

/-- One stepper per configured one, with the models in the order of the names. -/
def withModels (c : Config) (models : List (Model Float)) : List (Stepper Float) :=
  (c.steppers.zip models).map fun ((name, s), model) => Stepper.new name s.drive.stepDistance model

/-- The steppers of the kinematics, without the dual carriage. -/
def kinematicSteppers (c : Config) (family : Family) : Except MachineError (List (Stepper Float)) :=
  match family with
  | .cartesian | .coreXY | .coreXZ =>
    c.steppers.mapM fun (name, s) => do
      let token ← faulty (axisToken name s)
      let model ← kinematic (Model.ofAxis? family token)
      return Stepper.new name s.drive.stepDistance model
  | .delta => do
    let delta ← faulty (geometry "delta" c.delta)
    faulty (c.checkCount "delta" 3)
    let towers ← kinematic (Tower.ring? delta.radius delta.armLength delta.bearings)
    return c.withModels (towers.map .tower)
  | .rotaryDelta => do
    let rotary ← faulty (geometry "rotary_delta" c.rotaryDelta)
    faulty (c.checkCount "rotary_delta" 3)
    (c.steppers.zip rotary.bearings).mapM fun ((name, s), degrees) => do
      let shoulder ← kinematic (Shoulder.of? rotary.shoulderRadius rotary.shoulderHeight
        (Scalar.radians degrees) rotary.upperArm rotary.lowerArm)
      let radians := s.drive.stepDistance / s.drive.rotationDistance * (2.0 * Scalar.pi)
      return Stepper.new name radians (.shoulder shoulder)
  | .winch => do
    let winch ← faulty (geometry "winch" c.winch)
    faulty (c.checkCount "winch" winch.anchors.length)
    return c.withModels (winch.anchors.map .winch)
  | .none => .ok []

/-- Puts a stepper on a carriage with a transform, leaving it as it is if the axis is refused. -/
def onCarriage (s : Stepper Float) (axis : Char) (scale offset : Float) :
    Except (KinematicsError Float) (Stepper Float) :=
  let carriage := Carriage.identity s.model.axes
  (carriage.setTransform s.model.axes axis scale offset).map fun carriage =>
    { s with model := .dualCarriage carriage s.model }

/-- Puts the second carriage's stepper, and all others that move along the axis, on carriages. -/
def withCarriage (dc : DualCarriageSection) (steppers : List (Stepper Float)) :
    Except (KinematicsError Float) (List (Stepper Float)) := do
  let letter ← singleChar? dc.axis
  match Axis.ofChar? letter with
  | none => .error (.invalidAxis letter)
  | some axis =>
    steppers.mapM fun s =>
      if s.name = dc.stepper then onCarriage s letter dc.mode.scale dc.offset
      else if s.model.axes.has axis then onCarriage s letter 1.0 0.0
      else .ok s

/-- The toolhead steppers in the order of their names. -/
def buildSteppers (c : Config) : Except MachineError (List (Stepper Float)) := do
  let family ← kinematic (Family.ofName? c.printer.kinematics)
  let steppers ← c.kinematicSteppers family
  match c.dualCarriage with
  | none => return steppers
  | some dc => kinematic (withCarriage dc steppers)

/-- The extruder stepper. -/
def buildExtruder (e : ExtruderSection) : Except MachineError (Stepper Float) := do
  let pa ← kinematic (PressureAdvance.of? e.pressureAdvance e.smoothTime)
  return Stepper.new "extruder" e.drive.stepDistance (.extruder pa)

/-- The shapers of both axes. -/
def buildShapers (s : ShaperSection) : Except ConfigFault (List (AxisShaper Float)) :=
  ['x', 'y'].mapM fun axis => do
    let kinds ← (← s.kinds? axis).mapM fun name =>
      match ShaperKind.ofName? name with
      | .ok kind => .ok kind
      | .error fault => .error (.shaper fault)
    let freqs ← s.freqs? axis
    let dampings ← s.dampings? axis
    match AxisShaper.ofEntries? axis kinds freqs dampings with
    | .ok shaper => return shaper
    | .error fault => throw (.shaper fault)

end Config

end PrinterMotion
