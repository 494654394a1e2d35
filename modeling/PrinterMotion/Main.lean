/-
The command line. The first argument says which program is meant: `host` for the printer, `sim` for
scenarios; all others are arguments of that program.
-/
import PrinterMotion.CommandLine.Host
import PrinterMotion.CommandLine.Simulator

open PrinterMotion CommandLine

/-- What is found under a path. Nothing is, if a part of it is no directory or it cannot be a name. -/
def contentAt (path : String) : IO FileContent := do
  try
    match String.fromUTF8? (← IO.FS.readBinFile path) with
    | some s => return .text s
    | none => return .unreadable
  catch
    | .noFileOrDirectory .. | .invalidArgument .. | .inappropriateType _ 20 _ => return .missing
    | _ => return .unreadable

/-- Prints what there is to print and writes the files. -/
def carryThrough (o : Outcome) : IO UInt32 := do
  unless o.files.isEmpty do
    IO.FS.createDirAll o.directory
  for (name, content) in o.files do
    IO.FS.writeFile (o.directory ++ "/" ++ name) content
  IO.print o.output
  IO.eprint o.complaint
  return .ofNat o.exit

/-- Hands the arguments on to the program that the first of them names. -/
def main (args : List String) : IO UInt32 := do
  match args with
  | "host" :: args => carryThrough (← Host.run args contentAt)
  | "sim" :: args => carryThrough (← Simulator.run args contentAt)
  | _ =>
    IO.eprintln "Usage: (host|sim) [ARGUMENTS]"
    return 2
