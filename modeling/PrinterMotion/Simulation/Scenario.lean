/-
Scenarios of a homing move that several controllers take part in.
-/
import PrinterMotion.Decimal.Layout
import PrinterMotion.Trsync.Settings

namespace PrinterMotion

/-- The simulated window of time, and what controllers are told when one of them triggers. -/
structure SimulationSettings (α : Type) where
  /-- The host time at which the simulation ends. -/
  duration : α
  /-- The host time at which the dispatch starts. -/
  startTime : α
  reason : Reason
deriving Repr

/-- The settings used when none are given. -/
def SimulationSettings.default {α : Type} [Scalar α] : SimulationSettings α :=
  ⟨0.5, 0.0, Reason.endstopHit⟩

/-- A controller that takes part. Times are host times in seconds. -/
structure ControllerScenario (α : Type) where
  name : String
  /-- Ticks per second. -/
  freq : α
  /-- How long the controller has been running at host time zero. -/
  offset : α
  /-- The time between reports; by default a part of the expire timeout. -/
  statusPeriod : Option α
  /-- How long messages are under way. -/
  latency : α
  /-- The time at which the endstop closes. -/
  triggerTime : Option α
  /-- Whether the controller stops by itself when its expire clock has passed. -/
  watchdog : Bool
  /-- The start and end of a time during which reports are lost. -/
  lostReports : Option (α × α)
deriving Repr

namespace ControllerScenario

variable {α : Type} [Scalar α]

/-- The controller of a name, with all else left out. -/
def named (name : String) : ControllerScenario α :=
  ⟨name, 50000000.0, 0.0, none, 0.0005, none, true, none⟩

/-- The time between reports. -/
def period (c : ControllerScenario α) (settings : TrsyncSettings α) (controllers : Nat) : α :=
  c.statusPeriod.getD (settings.expireTimeout controllers * 0.3)

/-- Whether a report made at a time is lost. -/
def losesReportAt (c : ControllerScenario α) (time : α) : Bool :=
  match c.lostReports with
  | some (start, finish) => decide (start ≤ time) && decide (time < finish)
  | none => false

end ControllerScenario

/-- A homing move to simulate. -/
structure Scenario (α : Type) where
  simulation : SimulationSettings α
  trsync : TrsyncSettings α
  controllers : List (ControllerScenario α)
deriving Repr

/-- Why a scenario is refused. -/
inductive ScenarioFault where
  | noControllers
  | emptyWindow
  | freq (controller : String)
  | offset (controller : String)
  | latency (controller : String)
  | statusPeriod (controller : String)
  | duplicateName (controller : String)
deriving Repr, DecidableEq

/-- The wording of a fault. -/
def ScenarioFault.message (f : ScenarioFault) : String :=
  "Invalid scenario: " ++
    match f with
    | .noControllers => "at least one [[mcu]] is required"
    | .emptyWindow => "duration must be after start_time"
    | .freq controller => s!"mcu '{controller}': freq must be > 0"
    | .offset controller => s!"mcu '{controller}': offset must be >= 0"
    | .latency controller => s!"mcu '{controller}': latency must be >= 0"
    | .statusPeriod controller => s!"mcu '{controller}': status_period must be > 0"
    | .duplicateName controller => s!"duplicate mcu name '{controller}'"

namespace Scenario

variable {α : Type} [Scalar α]

/-- The times between the reports of the controllers. -/
def periods (s : Scenario α) : List α :=
  s.controllers.map fun c => c.period s.trsync s.controllers.length

/-- Checks a controller that comes behind controllers of the given names; the first fault counts. -/
def checkController (before : List String) (c : ControllerScenario α) : Except ScenarioFault Unit :=
  if !((0.0 : α) < c.freq) then .error (.freq c.name)
  else if !((0.0 : α) ≤ c.offset) then .error (.offset c.name)
  else if !((0.0 : α) ≤ c.latency) then .error (.latency c.name)
  else if c.statusPeriod.any fun p => !decide ((0.0 : α) < p) then .error (.statusPeriod c.name)
  else if before.contains c.name then .error (.duplicateName c.name)
  else .ok ()

/-- Checks the controllers in their order. -/
def checkControllers (before : List String) :
    List (ControllerScenario α) → Except ScenarioFault Unit
  | [] => .ok ()
  | c :: rest =>
    match checkController before c with
    | .error fault => .error fault
    | .ok _ => checkControllers (before ++ [c.name]) rest

/-- Checks a scenario; the first fault counts. -/
def validate (s : Scenario α) : Except ScenarioFault Unit :=
  if s.controllers.isEmpty then .error .noControllers
  else if !(s.simulation.startTime < s.simulation.duration) then .error .emptyWindow
  else checkControllers [] s.controllers

end Scenario

end PrinterMotion
