/-
Generated steps as a JSON value, and the lines of an overview.
-/
import PrinterMotion.Json.Value
import PrinterMotion.StepGenerator.Flush
import PrinterMotion.Text.Columns

namespace PrinterMotion

/-- A step as a JSON value. -/
def Step.toJson (s : Step Float) : Json :=
  .object [("print_time", .number s.time), ("dir", .int s.direction), ("position", .number s.position)]

/-- The steps of all steppers as a JSON value. -/
def StepReport.toJson (r : StepReport Float) : Json :=
  .object (r.map fun (name, steps) => (name, .array Step.toJson steps.toList))

/-- A line on a stepper: the number of its steps, where they lead on the whole, and its position. -/
def Stepper.line (s : Stepper Float) (steps : Array (Step Float)) : String :=
  let net := steps.foldl (fun sum (step : Step Float) => sum + step.direction) 0
  Text.padRight 16 s.name ++ " " ++ Text.padLeft 8 (toString steps.size) ++ " steps  net " ++
    Text.padLeft 8 (Text.withSign net) ++ "  position " ++
    Text.padLeft 10 (Decimal.fixed 4 s.commanded) ++ "\n"

/-- The lines of all steppers, in the order in which they were added. -/
def StepGenerator.overview (g : StepGenerator Float) (r : StepReport Float) : String :=
  String.join (g.members.map fun m => m.stepper.line (r.get m.stepper.name))

end PrinterMotion
