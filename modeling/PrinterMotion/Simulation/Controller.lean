/-
A simulated controller: it runs its own clock, reports its state, obeys the host, and may stop by itself
when its endstop closes or its expire clock passes.
-/
import PrinterMotion.Simulation.EventQueue
import PrinterMotion.Simulation.Scenario

namespace PrinterMotion

/-- A controller during a simulation. -/
structure SimulatedController (α : Type) where
  scenario : ControllerScenario α
  clock : ClockEstimate α
  /-- The time between reports. -/
  period : Instant
  /-- How long messages are under way. -/
  latency : Instant
  /-- The expire clock it was last told. -/
  expire : Option UInt64
  /-- Why it stopped, and its clock at that time. -/
  stopped : Option (Reason × UInt64)
  /-- The host time at which it stopped. -/
  stopTime : Option α
  reportsSent : Nat
deriving Repr

namespace SimulatedController

variable {α : Type}

/-- Stops the controller, unless it has stopped before. -/
def stop (c : SimulatedController α) (reason : Reason) (clock : UInt64) (time : α) :
    SimulatedController α :=
  if c.stopped.isSome then c
  else { c with stopped := some (reason, clock), stopTime := some time }

variable [Scalar α]

/-- The clock of the controller of a scenario. -/
def clockOf (c : ControllerScenario α) : ClockEstimate α :=
  .ofReference (Clock.clampWord (Scalar.floor (Scalar.max (c.offset * c.freq) 0.0))) 0.0 c.freq

/-- The reading of the clock at a host time. -/
def clockAt (c : SimulatedController α) (time : α) : UInt64 := c.clock.ofTime time

/-- Stops a controller whose expire clock has passed, if it watches it. -/
def watch (c : SimulatedController α) (time : α) : SimulatedController α :=
  if c.scenario.watchdog then
    match c.expire with
    | some expire => if expire ≤ c.clockAt time then c.stop Reason.commsTimeout expire time else c
    | none => c
  else c

/-- What the controller reports at a host time. The clock of a stopped one stands still. -/
def reportAt (c : SimulatedController α) (oid : UInt32) (time : α) : StatusReport :=
  match c.stopped with
  | some (reason, clock) => ⟨oid, false, reason, Clock.low clock⟩
  | none => ⟨oid, true, 0, Clock.low (c.clockAt time)⟩

end SimulatedController

end PrinterMotion
