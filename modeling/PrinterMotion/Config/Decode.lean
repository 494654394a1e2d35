/-
Decoding a configuration from a TOML document. Unknown keys are left alone. A section is a table, or an
array with the settings in their order. Items beyond those that are wanted are left
alone. Whole numbers stand for numbers, but not the other way round.
-/
import PrinterMotion.Config.Sections
import PrinterMotion.Toml.Reader

namespace PrinterMotion.Config

open PrinterMotion.Toml (Value)

/-! ## Settings of a section -/

/-- The settings of a section, by name or by position. -/
inductive Settings where
  | named (entries : Toml.Entries)
  | listed (items : List Value)

namespace Settings

/-- The settings in a value. A date and time has no settings of any name. -/
def of? : Value → Option Settings
  | .table entries => some (.named entries)
  | .array items => some (.listed items)
  | .datetime _ => some (.named [])
  | _ => none

/-- The value of a setting, which is the one at `position` in a list. -/
def value? (s : Settings) (position : Nat) (name : String) : Option Value :=
  match s with
  | named entries => entries.lookup name
  | listed items => items[position]?

/-- A setting with a default. -/
def getD {β : Type} (s : Settings) (position : Nat) (name : String) (decode : Value → Option β)
    (default : β) : Option β :=
  match s.value? position name with
  | none => some default
  | some v => decode v

/-- A setting that may be left out. -/
def optional {β : Type} (s : Settings) (position : Nat) (name : String) (decode : Value → Option β) :
    Option (Option β) :=
  match s.value? position name with
  | none => some none
  | some v => (decode v).map some

/-- A setting that must be given. -/
def require {β : Type} (s : Settings) (position : Nat) (name : String) (decode : Value → Option β) :
    Option β :=
  (s.value? position name).bind decode

end Settings

/-! ## Values -/

/-- A text. -/
def text : Value → Option String
  | .text s => some s
  | _ => none

/-- A number. -/
def number : Value → Option Float
  | .float x => some x
  | .integer n => some (Scalar.ofInt n)
  | _ => none

/-- An unsigned 32-bit number. -/
def word : Value → Option UInt32
  | .integer n => if 0 ≤ n ∧ n < UInt32.size then some (UInt32.ofNat n.toNat) else none
  | _ => none

/-- A list. -/
def list {β : Type} (decode : Value → Option β) : Value → Option (List β)
  | .array items => items.mapM decode
  | _ => none

/-- The first three items of a list, as numbers. -/
def triple : Value → Option (List Float)
  | .array (x :: y :: z :: _) => [x, y, z].mapM number
  | _ => none

/-- A point. -/
def point (v : Value) : Option (Coord Float) :=
  (triple v).bind fun
    | [x, y, z] => some ⟨x, y, z⟩
    | _ => none

/-- One number or several. -/
def numbers (v : Value) : Option NumberList :=
  ((number v).map .one).or (((list number v).map .many).or ((text v).map .text))

/-- One name or several. -/
def names (v : Value) : Option NameList :=
  ((text v).map .one).or ((list text v).map .many)

/-- A carriage mode: its word, or the word as the key of nothing. -/
def mode : Value → Option CarriageMode
  | .text s => CarriageMode.ofWord? s
  | .table [(key, .table [])] => CarriageMode.ofWord? key
  | .table [(key, .array [])] => CarriageMode.ofWord? key
  | _ => none

/-! ## Sections -/

/-- The printer as a whole. -/
def printerSection (v : Value) : Option PrinterSection := do
  let s ← Settings.of? v
  let d := PrinterSection.default
  return ⟨← s.getD 0 "kinematics" text d.kinematics, ← s.getD 1 "max_velocity" number d.maxVelocity,
    ← s.getD 2 "max_accel" number d.maxAccel, ← s.optional 3 "printer_name" text⟩

/-- The drive settings of a section, which come first in it. -/
def drive (s : Settings) : Option Drive := do
  let d := Drive.default
  return ⟨← s.getD 0 "rotation_distance" number d.rotationDistance,
    ← s.getD 1 "microsteps" word d.microsteps,
    ← s.getD 2 "full_steps_per_rotation" word d.fullSteps⟩

/-- A stepper of the toolhead. -/
def stepperSection (v : Value) : Option StepperSection := do
  let s ← Settings.of? v
  return ⟨← drive s, ← s.optional 3 "axis" text⟩

/-- The geometry of a linear delta. -/
def deltaSection (v : Value) : Option DeltaSection := do
  let s ← Settings.of? v
  return ⟨← s.require 0 "radius" number, ← s.require 1 "arm_length" number,
    ← s.getD 2 "angles" triple defaultBearings⟩

/-- The geometry of a rotary delta. -/
def rotaryDeltaSection (v : Value) : Option RotaryDeltaSection := do
  let s ← Settings.of? v
  return ⟨← s.require 0 "shoulder_radius" number, ← s.require 1 "shoulder_height" number,
    ← s.require 2 "upper_arm_length" number, ← s.require 3 "lower_arm_length" number,
    ← s.getD 4 "angles" triple defaultBearings⟩

/-- The anchors of a cable printer. -/
def winchSection (v : Value) : Option WinchSection := do
  let s ← Settings.of? v
  return ⟨← s.require 0 "anchors" (list point)⟩

/-- The extruder. -/
def extruderSection (v : Value) : Option ExtruderSection := do
  let s ← Settings.of? v
  return ⟨← drive s, ← s.getD 3 "pressure_advance" number 0.0,
    ← s.getD 4 "pressure_advance_smooth_time" number defaultSmoothTime⟩

/-- Input shaping. -/
def shaperSection (v : Value) : Option ShaperSection := do
  let s ← Settings.of? v
  let d := ShaperAxisSection.default
  return ⟨← s.getD 0 "shaper_type" text defaultShaperKind,
    ⟨← s.optional 1 "shaper_type_x" names, ← s.getD 2 "shaper_freq_x" numbers d.freqs,
      ← s.getD 3 "damping_ratio_x" numbers d.dampings⟩,
    ⟨← s.optional 4 "shaper_type_y" names, ← s.getD 5 "shaper_freq_y" numbers d.freqs,
      ← s.getD 6 "damping_ratio_y" numbers d.dampings⟩⟩

/-- The dual carriage. -/
def dualCarriageSection (v : Value) : Option DualCarriageSection := do
  let s ← Settings.of? v
  return ⟨← s.getD 0 "axis" text "x", ← s.require 1 "stepper" text,
    ← s.getD 2 "mode" mode .primary, ← s.getD 3 "offset" number 0.0⟩

/-- Trigger synchronisation. -/
def trsyncSection (v : Value) : Option (TrsyncSettings Float) := do
  let s ← Settings.of? v
  let d := TrsyncSettings.default (α := Float)
  return ⟨← s.getD 0 "timeout" number d.timeout,
    ← s.getD 1 "single_mcu_timeout" number d.singleTimeout,
    ← s.getD 2 "min_extend_fraction" number d.extendFraction⟩

/-- Puts a named entry into its place in the order of names. -/
def insertByName {β : Type} (name : String) (b : β) : List (String × β) → List (String × β)
  | [] => [(name, b)]
  | (n, c) :: rest =>
    if name < n then (name, b) :: (n, c) :: rest else (n, c) :: insertByName name b rest

/-- The steppers by name. -/
def stepperSections : Value → Option (List (String × StepperSection))
  | .table entries =>
    entries.foldlM (fun steppers (name, v) => do return insertByName name (← stepperSection v) steppers) []
  | _ => none

/-- The configuration of a document. -/
def decode (document : Toml.Entries) : Option Config := do
  let s := Settings.named document
  return ⟨← s.getD 0 "printer" printerSection .default, ← s.getD 1 "stepper" stepperSections [],
    ← s.optional 2 "delta" deltaSection, ← s.optional 3 "rotary_delta" rotaryDeltaSection,
    ← s.optional 4 "winch" winchSection, ← s.optional 5 "extruder" extruderSection,
    ← s.optional 6 "input_shaper" shaperSection, ← s.optional 7 "dual_carriage" dualCarriageSection,
    ← s.getD 8 "trsync" trsyncSection TrsyncSettings.default⟩

/-- The configuration of a text, if it is well formed. -/
def parse? (document : String) : Option Config := (Toml.read .version10 document).bind decode

end PrinterMotion.Config
