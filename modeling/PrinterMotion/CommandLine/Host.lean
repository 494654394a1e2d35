/-
The program for a printer: it generates the steps of one move, tries out the trigger dispatch, and switches
hub ports where the host has access to them.
-/
import PrinterMotion.CommandLine.Outcome
import PrinterMotion.Machine
import PrinterMotion.StepGenerator.Summary
import PrinterMotion.Trsync.Summary

namespace PrinterMotion.CommandLine.Host

/-! ## Arguments -/

/-- The program. -/
def grammar : Grammar where
  name := "kinstep-host"
  about := "Step time generation and homing trigger dispatch"
  version := some "0.1.0"
  helped := true
  switches := [
    ⟨"config", some 'c', .one, "FILE", "Path to the printer TOML", ["printer.toml"], false, isPath⟩,
    logLevel "Console log level (error|warn|info|debug|trace)"]
  positionals := []
  commands := [
    ("move", "Generate the steps for one straight move from the origin"),
    ("homing", "Run a homing trigger dispatch against simulated MCUs"),
    ("hub-power", "Switch power on a USB hub port"),
    ("help", "Print this message or the help of the given subcommand(s)")]

/-- A command of the program. -/
def command (name : String) (switches : List Switch) (positionals : List Positional) : Grammar :=
  ⟨grammar.name ++ " " ++ name, (grammar.commands.lookup name).getD "", none, true, switches,
    positionals, []⟩

/-- An option with a number. -/
def numeric (long value about default : String) : Switch :=
  ⟨long, none, .one, value, about, [default], false, isNumber⟩

/-- An option without a value. -/
def plain (long about : String) : Switch := ⟨long, none, .none, "", about, [], false, fun _ => true⟩

/-- The command for a move. -/
def moveGrammar : Grammar :=
  command "move" [numeric "x" "X" "" "50", numeric "y" "Y" "" "0", numeric "z" "Z" "" "0",
    numeric "e" "E" "Filament to extrude along the move" "0",
    plain "json" "Print every step as JSON instead of a summary"] []

/-- The command for homing. -/
def homingGrammar : Grammar :=
  command "homing" [⟨"trip-ms", none, .several, "TRIP_MS", "Endstop trip time in ms, one per MCU",
    ["40", "55"], false, isNumber⟩] []

/-- The command for a hub port. -/
def hubGrammar : Grammar :=
  command "hub-power" [plain "off" ""] [⟨"HUB", "", false, isNatural UInt64.size⟩,
    ⟨"PORT", "", false, isNatural UInt16.size⟩]

/-- The command for help. -/
def helpGrammar : Grammar :=
  { command "help" [] [⟨"COMMAND", "Print help for the subcommand(s)", true,
      fun s => (grammar.commands.lookup s).isSome⟩] with helped := false }

/-- The commands that do work. -/
def commandGrammars : List (String × Grammar) :=
  [("move", moveGrammar), ("homing", homingGrammar), ("hub-power", hubGrammar)]

/-! ## Commands -/

/-- Generates the steps of a move from the origin. -/
def move (c : Config) (target : Coord Float) (filament : Float) (json : Bool) : Outcome :=
  match Machine.empty.install c (some Coord.origin) with
  | (_, some e) => .failure e.message
  | (m, none) =>
    match m.configureShaping with
    | (_, some e) => .failure e.message
    | (m, none) =>
      let start := 0.1
      match m.generator.queueMove start Coord.origin target c.printer.maxVelocity c.printer.maxAccel with
      | (_, .error e) => .failure e.message
      | (g, .ok (finish, timing)) =>
        let (g, refused) :=
          if c.extruder.isSome then g.queueExtrusion Machine.filament start timing 0.0 filament
          else (g, none)
        match refused with
        | some e => .failure e.message
        | none =>
          match g.flushUntil start 0.05 fun g => finish + 2.0 * g.flushDelay with
          | (_, .error e) => .failure e.message
          | (g, .ok steps) =>
            .success (if json then steps.toJson.pretty ++ "\n" else g.overview steps)

/-- Tries out the trigger dispatch with controllers that trigger after given milliseconds. -/
def homing (c : Config) (triggers : List Float) : Outcome :=
  match Trial.run c.trsync (triggers.map (· / 1000.0)) with
  | .error e => .failure e.message
  | .ok t => .success t.overview

/-- The configuration in a file; a missing file counts as the default if one is given. -/
def configuration (file : FileContent) (default : Option Config) : Option Config :=
  match file with
  | .missing => default
  | .unreadable => none
  | .text document => (Config.load document).toOption

/-- Carries out a command with the arguments that were given to it. -/
def carryOut (name : String) (g : Grammar) (given : Given) (file : FileContent) : Outcome :=
  let number (long : String) : Float := (Text.readFloat (g.valueOf given long)).getD 0.0
  let unusable := Outcome.failure "the configuration cannot be loaded"
  match name with
  | "move" =>
    match configuration file none with
    | none => unusable
    | some c => move c ⟨number "x", number "y", number "z"⟩ (number "e") (given.has "json")
  | "homing" =>
    match configuration file (some .default) with
    | none => unusable
    | some c => homing c ((g.valuesOf given "trip-ms").filterMap Text.readFloat)
  | _ => .failure (grammar.name ++ " was built without the usbfs feature")

/-- Prints the help of a command or that of the program. All arguments are names of commands here. -/
def help : List String → Outcome
  | [] => .success grammar.help
  | [name] =>
    match (commandGrammars ++ [("help", helpGrammar)]).lookup name with
    | some g => .success g.help
    | none => grammar.answer .usage
  | _ => grammar.answer .usage

/-- Runs the program with its arguments, given a way to look at a file. -/
def run {m : Type → Type} [Monad m] (args : List String) (look : String → m FileContent) : m Outcome :=
  match grammar.read args with
  | .error stop => pure (grammar.answer stop)
  | .ok program =>
    match program.command with
    | none => pure (grammar.answer .usage)
    | some (name, rest) =>
      match commandGrammars.lookup name with
      | none => pure (help rest)
      | some g =>
        match g.read rest with
        | .error stop => pure (g.answer stop)
        | .ok given =>
          let level := grammar.valueOf program "log-level"
          if isLogLevel level then carryOut name g given <$> look (grammar.valueOf program "config")
          else pure (badLogLevel level)

end PrinterMotion.CommandLine.Host
