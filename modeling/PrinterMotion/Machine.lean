/-
A configured machine: its step generator, and the shapers for its toolhead.
-/
import PrinterMotion.Config.Machine
import PrinterMotion.StepGenerator.Flush
import PrinterMotion.StepGenerator.Shaping

namespace PrinterMotion

/-- A step generator and the shapers to use with it. -/
structure Machine where
  generator : StepGenerator Float
  shapers : List (AxisShaper Float)

namespace Machine

/-- The machine without steppers. -/
def empty : Machine := ⟨StepGenerator.empty, []⟩

/-- The queue of filament motion. -/
def filament : QueueRef := .extra "e"

/-- Adds a stepper. -/
def add (m : Machine) (s : Stepper Float) : Machine := { m with generator := m.generator.addStepper s }

/-- Adds the toolhead steppers of a configuration, at a position if one is given. -/
def addSteppers (m : Machine) (c : Config) (position : Option (Coord Float)) :
    Except MachineError Machine :=
  c.buildSteppers.map fun steppers =>
    steppers.foldl (fun m s => m.add ((position.map s.setPosition).getD s)) m

/-- Adds the extruder of a configuration, if it has one. -/
def addExtruder (m : Machine) (c : Config) : Except MachineError Machine :=
  match c.extruder with
  | none => .ok m
  | some e => (Config.buildExtruder e).map fun s => m.add { s with queue := some filament }

/-- Takes the shapers of a configuration, if it has any. -/
def withShapers (m : Machine) (c : Config) : Except MachineError Machine :=
  match c.shaper with
  | none => .ok m
  | some s =>
    match Config.buildShapers s with
    | .ok shapers => .ok { m with shapers }
    | .error fault => .error (.shaping fault)

/-- Adds all that a configuration describes, up to the first part that cannot be built. -/
def install (m : Machine) (c : Config) (position : Option (Coord Float)) :
    Machine × Option MachineError :=
  match m.addSteppers c position with
  | .error e => (m, some e)
  | .ok m =>
    match m.addExtruder c with
    | .error e => (m, some e)
    | .ok m =>
      match m.withShapers c with
      | .error e => (m, some e)
      | .ok m => (m, none)

/-- Puts the shapers' parameters into the steppers. -/
def configureShaping (m : Machine) : Machine × Option (GeneratorError Float) :=
  let (generator, shapers, error) := m.generator.configureShaping m.shapers
  (⟨generator, shapers⟩, error)

end Machine

end PrinterMotion
