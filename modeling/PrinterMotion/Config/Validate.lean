/-
Checking a configuration, and loading one from the contents of a file.
-/
import PrinterMotion.Config.Decode

namespace PrinterMotion

/-- Why a configuration cannot be loaded. -/
inductive LoadError where
  /-- There is no file, or it is no text. -/
  | unreadable
  /-- The text is not well formed. -/
  | malformed
  | invalid (fault : ConfigFault)
deriving Repr

namespace Config

/-- Refuses with a fault if a condition holds. -/
def refuse (condition : Bool) (fault : ConfigFault) : Except ConfigFault Unit :=
  if condition then .error fault else .ok ()

/-- The section that kinematics of the given name requires. -/
def sectionFor {β : Type} (kinematics : String) (found : Option β) : Except ConfigFault β :=
  match found with
  | some b => .ok b
  | none => .error (.requiresSection kinematics)

/-- Checks the geometry that the kinematics needs. -/
def checkKinematics (c : Config) : Except ConfigFault Unit :=
  match c.printer.kinematics with
  | "cartesian" | "corexy" | "corexz" | "none" => .ok ()
  | "delta" => do
    let delta ← sectionFor "delta" c.delta
    refuse (delta.armLength ≤ delta.radius || delta.radius ≤ 0.0) .deltaArm
  | "rotary_delta" => do
    let rotary ← sectionFor "rotary_delta" c.rotaryDelta
    refuse (rotary.upperArm ≤ 0.0 || rotary.lowerArm ≤ 0.0) .rotaryArms
  | "winch" => do
    let winch ← sectionFor "winch" c.winch
    refuse winch.anchors.isEmpty .noAnchors
  | other => .error (.unknownKinematics other)

/-- Checks the shaper settings of an axis. -/
def checkShaperAxis (s : ShaperSection) (axis : Char) : Except ConfigFault Unit := do
  if let some freq := (← s.freqs? axis).find? fun f => !(0.0 ≤ f) then
    throw (.shaperFrequency axis freq)
  if let some ratio := (← s.dampings? axis).find? fun d => !(0.0 ≤ d && d ≤ 1.0) then
    throw (.shaperDamping axis ratio)

/-- Checks the dual carriage. -/
def checkCarriage (c : Config) (dc : DualCarriageSection) : Except ConfigFault Unit := do
  refuse (dc.axis != "x" && dc.axis != "y") (.carriageAxis dc.axis)
  refuse ((c.steppers.lookup dc.stepper).isNone) (.carriageStepper dc.stepper)

/-- Checks a configuration; the first fault counts. -/
def validate (c : Config) : Except ConfigFault Unit := do
  refuse (c.printer.maxVelocity ≤ 0.0 || c.printer.maxAccel ≤ 0.0) .printerLimits
  for (name, s) in c.steppers do
    refuse (s.drive.rotationDistance ≤ 0.0 || s.drive.microsteps == 0 || s.drive.fullSteps == 0)
      (.stepperRatio name)
  c.checkKinematics
  if let some e := c.extruder then
    refuse (e.pressureAdvance < 0.0 || e.smoothTime < 0.0) .pressureAdvance
  if let some s := c.shaper then
    checkShaperAxis s 'x'
    checkShaperAxis s 'y'
  if let some dc := c.dualCarriage then
    c.checkCarriage dc
  refuse (c.trsync.timeout ≤ 0.0 || c.trsync.singleTimeout ≤ 0.0) .trsyncTimeouts
  refuse (!(0.0 ≤ c.trsync.extendFraction && c.trsync.extendFraction < 1.0)) .extendFraction

/-- Loads a configuration from a text. -/
def load (document : String) : Except LoadError Config :=
  match parse? document with
  | none => .error .malformed
  | some c =>
    match c.validate with
    | .ok _ => .ok c
    | .error fault => .error (.invalid fault)

/-- Loads a configuration from the bytes of a file, which must be UTF-8. -/
def loadBytes (bytes : ByteArray) : Except LoadError Config :=
  match String.fromUTF8? bytes with
  | some document => load document
  | none => .error .unreadable

end Config

end PrinterMotion
