/-
What a program finds and what it does in the end: its exit code, what it prints and the files it writes.
Arguments that ask for help or the version are answered from the grammar.
-/
import PrinterMotion.CommandLine.Arguments
import PrinterMotion.Text.Columns
import PrinterMotion.Text.Number

namespace PrinterMotion.CommandLine

/-- What is found under the name of a file. -/
inductive FileContent where
  | missing
  /-- A directory, or something that is no text. -/
  | unreadable
  | text (s : String)
deriving Repr, DecidableEq

/-- What a program does in the end. -/
structure Outcome where
  exit : Nat
  /-- The text on standard output. -/
  output : String
  /-- The text on standard error. -/
  complaint : String
  /-- The directory of the files. -/
  directory : String
  /-- Names and contents of files. -/
  files : List (String × String)
deriving Repr

namespace Outcome

/-- Success with a text. -/
def success (output : String) : Outcome := ⟨0, output, "", "", []⟩

/-- Failure with a complaint. -/
def failure (complaint : String) : Outcome := ⟨1, "", "Error: " ++ complaint ++ "\n", "", []⟩

/-- The end of a program that arithmetic broke off. -/
def broken (complaint : String) : Outcome := ⟨101, "", complaint ++ "\n", "", []⟩

end Outcome

/-! ## Help -/

/-- How an option is written, with its value. -/
def Switch.form (s : Switch) : String :=
  let value := match s.arity with
    | .none => ""
    | .one => " <" ++ s.value ++ ">"
    | .several => " <" ++ s.value ++ ">..."
  "--" ++ s.long ++ value

/-- How a positional argument is written. -/
def Positional.form (p : Positional) : String :=
  if p.rest then "[" ++ p.name ++ "]..." else "<" ++ p.name ++ ">"

/-- A line of help: what is written, and what it means. -/
abbrev HelpLine := String × String

/-- The line of an option. -/
def Switch.helpLine (s : Switch) : HelpLine :=
  let short := match s.short with
    | some c => "-" ++ c.toString ++ ", "
    | none => "    "
  let default := if s.defaults.isEmpty then "" else "[default: " ++ " ".intercalate s.defaults ++ "]"
  (short ++ s.form, if s.about.isEmpty || default.isEmpty then s.about ++ default
    else s.about ++ " " ++ default)

/-- Lines of help under a heading, if there are any. -/
def helpSection (heading : String) (lines : List HelpLine) : String :=
  if lines.isEmpty then ""
  else
    let width := lines.foldl (fun w l => max w l.1.length) 0
    "\n" ++ heading ++ ":\n" ++
      String.join (lines.map fun l => "  " ++ Text.padRight width l.1 ++ "  " ++ l.2 ++ "\n")

namespace Grammar

/-- One line on how arguments are given. -/
def usage (g : Grammar) : String :=
  "Usage: " ++ g.name ++ (if g.helped || !g.switches.isEmpty then " [OPTIONS]" else "") ++
    String.join ((g.switches.filter (·.required)).map fun s => " " ++ s.form) ++
    String.join (g.positionals.map fun p => " " ++ p.form) ++
    (if g.commands.isEmpty then "" else " <COMMAND>") ++ "\n"

/-- The help. -/
def help (g : Grammar) : String :=
  let own := (if g.helped then [("-h, --help", "Print help")] else []) ++
    (if g.version.isSome then [("-V, --version", "Print version")] else [])
  g.about ++ "\n\n" ++ g.usage ++ helpSection "Commands" g.commands ++
    helpSection "Arguments" (g.positionals.map fun p => (p.form, p.about)) ++
    helpSection "Options" (g.switches.map Switch.helpLine ++ own)

/-- What becomes of a program whose arguments are not carried out. -/
def answer (g : Grammar) : Stop → Outcome
  | .usage => ⟨2, "", "error: the arguments are not understood\n\n" ++ g.usage, "", []⟩
  | .help => .success g.help
  | .version => .success (g.name ++ " " ++ g.version.getD "" ++ "\n")

end Grammar

/-! ## Values -/

/-- Whether a text is a number. -/
def isNumber (s : String) : Bool := (Text.readFloat s).isSome

/-- Whether a text is a whole number below a bound. -/
def isNatural (bound : Nat) (s : String) : Bool := (Text.readNat bound s).isSome

/-- Whether a text can name a file. -/
def isPath (s : String) : Bool := !s.isEmpty

/-- Whether a text names a log level, by its name or its number. -/
def isLogLevel (s : String) : Bool :=
  match Text.readNat UInt64.size s with
  | some n => 1 ≤ n && n ≤ 5
  | none => ["error", "warn", "info", "debug", "trace"].contains (Text.lowerAscii s)

/-- The option for how much a program reports of its work. -/
def logLevel (about : String) : Switch :=
  ⟨"log-level", none, .one, "LEVEL", about, ["info"], false, fun _ => true⟩

/-- The complaint about a log level that is none. -/
def badLogLevel (level : String) : Outcome := .failure ("invalid log level '" ++ level ++ "'")

end PrinterMotion.CommandLine
