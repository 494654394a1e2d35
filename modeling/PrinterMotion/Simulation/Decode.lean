/-
Reading a scenario from a TOML document. Settings are taken for what is wanted where that makes sense: a
text for the number it holds, the words of a switch for one and zero, a number for whether it is not zero.
A section is a table, or an array with the settings in their order, where further items are left alone.
-/
import PrinterMotion.Simulation.Scenario
import PrinterMotion.Simulation.Setting
import PrinterMotion.Toml.Reader

namespace PrinterMotion

/-- Why a scenario cannot be loaded. -/
inductive ScenarioError where
  /-- There is no text, it is no TOML document, or a setting is of a wrong kind. -/
  | unreadable
  /-- A path leads to a place that no list has. -/
  | oversized
  | invalid (fault : ScenarioFault)
deriving Repr, DecidableEq

namespace Scenario

/-! ## Values -/

/-- Whether a word switches on or off. -/
def switch? (s : String) : Option Bool :=
  match Text.lowerAscii s with
  | "true" | "on" | "yes" => some true
  | "false" | "off" | "no" => some false
  | _ => none

/-- A number. -/
def number : Setting → Option Float
  | .float x => some x
  | .integer n => some (Scalar.ofInt n)
  | .boolean b => some (if b then 1.0 else 0.0)
  | .text s =>
    match switch? s with
    | some b => some (if b then 1.0 else 0.0)
    | none => Text.readFloat s
  | _ => none

/-- The whole number nearest to a number, a half going away from zero; zero for a negative number and for
none, and no more than 64 bits. -/
def nearestNatural (x : Float) : Nat :=
  let x := Scalar.max x 0.0
  let below := Scalar.floor x
  (Clock.clampWord (if 0.5 ≤ x - Scalar.ofInt below then below + 1 else below)).toNat

/-- An unsigned whole number. -/
def natural : Setting → Option Nat
  | .integer n => if 0 ≤ n then some n.toNat else none
  | .float x => some (nearestNatural x)
  | .boolean b => some b.toNat
  | .text s =>
    match switch? s with
    | some b => some b.toNat
    | none => Text.readNat UInt64.size s
  | _ => none

/-- A reason. -/
def reason (s : Setting) : Option Reason :=
  (natural s).bind fun n => if n < UInt32.size then some (.ofNat n) else none

/-- Whether something is so. -/
def truth : Setting → Option Bool
  | .boolean b => some b
  | .integer n => some (n != 0)
  | .float x => some (x != 0.0)
  | .text s => if s = "1" then some true else if s = "0" then some false else switch? s
  | _ => none

/-- A text. -/
def text : Setting → Option String
  | .text s => some s
  | .boolean b => some (toString b)
  | .integer n => some (toString n)
  | .float x => some (Decimal.plain x)
  | _ => none

/-- The first two items of a list, as numbers. -/
def pair : Setting → Option (Float × Float)
  | .list (a :: b :: _) => do return (← number a, ← number b)
  | _ => none

/-! ## Sections -/

/-- The setting of a section, by name or by position; none if there is no such section. -/
def setting? (s : Setting) (position : Nat) (name : String) : Option (Option Setting) :=
  match s with
  | .table entries => some (entries.lookup name)
  | .list items => some items[position]?
  | _ => none

/-- A setting with a default. -/
def setting {β : Type} (s : Setting) (position : Nat) (name : String) (decode : Setting → Option β)
    (default : β) : Option β := do
  match ← setting? s position name with
  | none => return default
  | some s => decode s

/-- A setting that may be left out or passed over. -/
def optional {β : Type} (s : Setting) (position : Nat) (name : String) (decode : Setting → Option β) :
    Option (Option β) :=
  setting s position name (fun
    | .missing => some none
    | s => (decode s).map some) none

/-- The simulated window. -/
def simulationSection (s : Setting) : Option (SimulationSettings Float) := do
  let d := SimulationSettings.default (α := Float)
  return ⟨← setting s 0 "duration" number d.duration, ← setting s 1 "start_time" number d.startTime,
    ← setting s 2 "dispatch_reason" reason d.reason⟩

/-- Trigger synchronisation. -/
def trsyncSection (s : Setting) : Option (TrsyncSettings Float) := do
  let d := TrsyncSettings.default (α := Float)
  return ⟨← setting s 0 "timeout" number d.timeout,
    ← setting s 1 "single_mcu_timeout" number d.singleTimeout,
    ← setting s 2 "min_extend_fraction" number d.extendFraction⟩

/-- A controller, which must have a name. -/
def controllerSection (s : Setting) : Option (ControllerScenario Float) := do
  let d := ControllerScenario.named (α := Float) (← text (← (← setting? s 0 "name")))
  return ⟨d.name, ← setting s 1 "freq" number d.freq, ← setting s 2 "offset" number d.offset,
    ← optional s 3 "status_period" number, ← setting s 4 "latency" number d.latency,
    ← optional s 5 "trigger_time" number, ← setting s 6 "watchdog" truth d.watchdog,
    ← optional s 7 "lost_reports" pair⟩

/-- The controllers. -/
def controllerSections : Setting → Option (List (ControllerScenario Float))
  | .list items => items.mapM controllerSection
  | _ => none

/-- The scenario of settings. -/
def decode (s : Setting) : Option (Scenario Float) := do
  return ⟨← setting s 0 "simulation" simulationSection .default,
    ← setting s 1 "trsync" trsyncSection .default, ← setting s 2 "mcu" controllerSections []⟩

/-- Loads a scenario from a text. -/
def load (document : String) : Except ScenarioError (Scenario Float) :=
  match Toml.read .version11 document with
  | none => .error .unreadable
  | some document =>
    match Setting.ofDocument document with
    | none => .error .oversized
    | some settings =>
      match decode settings with
      | none => .error .unreadable
      | some s =>
        match s.validate with
        | .ok _ => .ok s
        | .error fault => .error (.invalid fault)

/-- Loads a scenario from the content of a file, which may begin with a byte order mark of its own. -/
def loadFile (content : String) : Except ScenarioError (Scenario Float) :=
  load (String.ofList (Toml.skipMark content.toList))

end Scenario

end PrinterMotion
