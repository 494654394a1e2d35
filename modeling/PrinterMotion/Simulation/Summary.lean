/-
A scenario and the outcome of its simulation as JSON values, and the messages as a table.
-/
import PrinterMotion.Config.Summary
import PrinterMotion.Simulation.Homing
import PrinterMotion.Trsync.Summary

namespace PrinterMotion

/-- Simulation settings as a JSON value. -/
def SimulationSettings.toJson (s : SimulationSettings Float) : Json :=
  .object [("duration", .number s.duration), ("start_time", .number s.startTime),
    ("dispatch_reason", .ofNat s.reason.toNat)]

/-- A controller of a scenario as a JSON value. -/
def ControllerScenario.toJson (c : ControllerScenario Float) : Json :=
  .object [("name", .text c.name), ("freq", .number c.freq), ("offset", .number c.offset),
    ("status_period", .optional .number c.statusPeriod), ("latency", .number c.latency),
    ("trigger_time", .optional .number c.triggerTime), ("watchdog", .bool c.watchdog),
    ("lost_reports", .optional (fun (start, finish) => .array .number [start, finish]) c.lostReports)]

/-- A scenario as a JSON value. -/
def Scenario.toJson (s : Scenario Float) : Json :=
  .object [("simulation", s.simulation.toJson), ("trsync", s.trsync.toJson),
    ("mcu", .array ControllerScenario.toJson s.controllers)]

/-- What became of a controller, as a JSON value. -/
def ControllerSummary.toJson (c : ControllerSummary Float) : Json :=
  .object [("name", .text c.name), ("trip_reason", .optional (fun r => .ofNat r.toNat) c.stopReason),
    ("trip_time", .optional .number c.stopTime), ("reports_sent", .ofNat c.reportsSent)]

/-- An outcome as a JSON value. -/
def HomingReport.toJson (r : HomingReport Float) : Json :=
  .object [("trigger", .optional TriggerEvent.toJson r.trigger),
    ("trigger_mcu", .optional .text r.triggerController), ("extensions", .ofNat r.extensions),
    ("lapse", .optional (fun e => .text e.message) r.lapse), ("stopped_by_host", .bool r.stoppedByHost),
    ("end_time", .number r.endTime), ("mcus", .array ControllerSummary.toJson r.controllers)]

/-- One line on an outcome. -/
def HomingReport.line (r : HomingReport Float) : String :=
  match r.triggerController, r.lapse with
  | some name, _ =>
    let time := (r.trigger.map TriggerEvent.hostTime).getD 0.0
    "triggered by " ++ name ++ " at " ++ Decimal.fixed 6 time ++ "s"
  | none, some e => "aborted: " ++ e.message
  | none, none => "no trigger, stopped by host: " ++ toString r.stoppedByHost

/-- A field of a table, in quotes if it needs them; a quote inside is written twice. -/
def tableField (s : String) : String :=
  if s.toList.any fun c => c = ',' || c = '"' || c = '\n' || c = '\r' then
    let inner := s.toList.flatMap fun c => if c = '"' then [c, c] else [c]
    String.ofList ('"' :: inner ++ ['"'])
  else s

/-- A line of a table. -/
def tableLine (fields : List String) : String := ",".intercalate (fields.map tableField) ++ "\n"

/-- A message as a line of a table. -/
def MessageRecord.line (m : MessageRecord Float) : String :=
  tableLine [Decimal.record m.time, m.controller, m.kind.direction, m.kind.name,
    toString m.clock.toNat, toString m.value.toNat]

/-- Messages as a table, which has a head unless it is empty. -/
def messageTable (messages : List (MessageRecord Float)) : String :=
  if messages.isEmpty then ""
  else
    tableLine ["time", "mcu", "direction", "message", "clock", "value"] ++
      String.join (messages.map MessageRecord.line)

end PrinterMotion
