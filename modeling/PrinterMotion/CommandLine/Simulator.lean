/-
The program for scenarios: it simulates one and writes down the messages and the outcome.
-/
import PrinterMotion.CommandLine.Outcome
import PrinterMotion.Simulation.Decode
import PrinterMotion.Simulation.Summary

namespace PrinterMotion.CommandLine.Simulator

/-- The program. -/
def grammar : Grammar where
  name := "sim-harness"
  about := "Replay a multi-MCU homing scenario"
  version := some "0.1.0"
  helped := true
  switches := [
    ⟨"scenario", some 's', .one, "FILE", "Scenario TOML", [], true, isPath⟩,
    ⟨"output", some 'o', .one, "DIR", "Directory for messages.csv and summary.json", ["sim_output"], false,
      isPath⟩,
    logLevel ""]
  positionals := []
  commands := []

/-- What comes of a simulation that cannot go on. -/
def broken : SimulationFailure → Outcome
  | .dispatch .clockOverflow => .broken (DispatchError.message .clockOverflow)
  | .endOfTime => .broken (SimulationFailure.message .endOfTime)
  | failure => .failure failure.message

/-- Writes the results of a simulation to a directory, which cannot be made where a file is. -/
def write (s : HomingSimulation Float) (report : HomingReport Float) (directory : String) :
    FileContent → Outcome
  | .text _ => .failure "the directory cannot be made"
  | _ =>
    { Outcome.success (report.line ++ "\n") with
      directory
      files := [("messages.csv", messageTable s.messages), ("summary.json", report.toJson.pretty)] }

/-- Simulates the scenario of a file and writes to a directory, given what is found under its name. -/
def carryOut (file : FileContent) (directory : String) (found : FileContent) : Outcome :=
  match file with
  | .text document =>
    match Scenario.loadFile document with
    | .ok scenario =>
      match (HomingSimulation.of? scenario).bind HomingSimulation.run with
      | .error failure => broken failure
      | .ok (s, report) => write s report directory found
    | .error .oversized => .broken "a list of the scenario is too long"
    | .error (.invalid fault) => .failure fault.message
    | .error .unreadable => .failure "the scenario cannot be read"
  | _ => .failure "the scenario cannot be read"

/-- Runs the program with its arguments, given a way to look at a file. -/
def run {m : Type → Type} [Monad m] (args : List String) (look : String → m FileContent) : m Outcome := do
  match grammar.read args with
  | .error stop => return grammar.answer stop
  | .ok given =>
    let level := grammar.valueOf given "log-level"
    if isLogLevel level then
      let directory := grammar.valueOf given "output"
      return carryOut (← look (grammar.valueOf given "scenario")) directory (← look directory)
    else return badLogLevel level

end PrinterMotion.CommandLine.Simulator
