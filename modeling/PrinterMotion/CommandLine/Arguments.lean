/-
The arguments of a program: options by a long or short name, positional arguments and commands. Values may
be joined to their option, an option without such a value takes the next argument, and behind two dashes
all arguments are positional.
-/
namespace PrinterMotion.CommandLine

/-- How many values an option takes. -/
inductive Arity where
  | none
  | one
  /-- One or more, also in several places. -/
  | several
deriving Repr, DecidableEq

/-- An option. -/
structure Switch where
  long : String
  short : Option Char
  arity : Arity
  /-- What the value is called. -/
  value : String
  about : String
  /-- The values that are used when the option is not given. -/
  defaults : List String
  required : Bool
  /-- Whether a text is a value of the option. -/
  accepts : String → Bool

/-- A positional argument. -/
structure Positional where
  name : String
  about : String
  /-- Whether it stands for all further arguments, of which there may be none. -/
  rest : Bool
  accepts : String → Bool

/-- What a program or a command of it understands. -/
structure Grammar where
  name : String
  about : String
  /-- The version, if it can be asked for. -/
  version : Option String
  /-- Whether help can be asked for with an option. -/
  helped : Bool
  switches : List Switch
  positionals : List Positional
  /-- The names of commands and what they do. -/
  commands : List (String × String)

/-- The arguments that were given. -/
structure Given where
  /-- Options by their long names, with their values. -/
  switches : List (String × List String)
  positionals : List String
  /-- The command and its own arguments. -/
  command : Option (String × List String)
deriving Repr

/-- Why arguments are not carried out. -/
inductive Stop where
  /-- They do not fit the grammar. -/
  | usage
  | help
  | version
deriving Repr, DecidableEq

/-- What the positional argument at a place stands for. -/
def Grammar.positional? (g : Grammar) (place : Nat) : Option Positional :=
  g.positionals[place]?.or (g.positionals.getLast?.filter (·.rest))

namespace Given

/-- No arguments. -/
def empty : Given := ⟨[], [], none⟩

/-- All values of an option. -/
def values (g : Given) (long : String) : List String :=
  (g.switches.filter fun s => s.1 = long).flatMap Prod.snd

/-- Whether an option was given. -/
def has (g : Given) (long : String) : Bool := g.switches.any fun s => s.1 = long

end Given

/-- How far arguments have been read. -/
structure Progress where
  given : Given
  /-- An option that takes the next arguments, with those it has taken. -/
  pending : Option (Switch × List String)
  /-- Whether only positional arguments follow. -/
  trailing : Bool

namespace Progress

/-- Adds an option with its values. -/
def add (r : Progress) (s : Switch) (values : List String) : Except Stop Progress :=
  if (s.arity ≠ .several && r.given.has s.long) || values.any (!s.accepts ·) then .error .usage
  else
    .ok { r with
      given := { r.given with switches := r.given.switches ++ [(s.long, values)] }, pending := none }

/-- Finishes the option that takes arguments, which must have taken one. -/
def close (r : Progress) : Except Stop Progress :=
  match r.pending with
  | none => .ok r
  | some (_, []) => .error .usage
  | some (s, values) => r.add s values

/-- Takes a positional argument. -/
def takePositional (g : Grammar) (r : Progress) (arg : String) : Except Stop Progress :=
  match g.positional? r.given.positionals.length with
  | none => .error .usage
  | some p =>
    if p.accepts arg then
      .ok { r with given := { r.given with positionals := r.given.positionals ++ [arg] } }
    else .error .usage

/-- Takes a value or a positional argument. -/
def takePlain (g : Grammar) (r : Progress) (arg : String) : Except Stop Progress :=
  match r.pending with
  | none => r.takePositional g arg
  | some (s, values) =>
    if s.arity = .several then .ok { r with pending := some (s, values ++ [arg]) }
    else r.add s (values ++ [arg])

/-- Takes an option by its long name, with the value joined to it. -/
def takeLong (g : Grammar) (r : Progress) (name : String) (value : Option String) :
    Except Stop Progress := do
  let r ← r.close
  match g.switches.find? fun s => s.long = name with
  | some s =>
    match s.arity, value with
    | .none, none => r.add s []
    | .none, some _ => throw .usage
    | _, some v => r.add s [v]
    | _, none => return { r with pending := some (s, []) }
  | none =>
    if value.isSome then throw .usage
    else if name = "help" ∧ g.helped then throw .help
    else if name = "version" ∧ g.version.isSome then throw .version
    else throw .usage

/-- Takes options by their short names; behind one with a value the rest is its value. -/
def takeShort (g : Grammar) (r : Progress) : List Char → Except Stop Progress
  | [] => .ok r
  | c :: rest =>
    match g.switches.find? fun s => s.short = some c with
    | some s =>
      if s.arity = .none then
        match r.add s [] with
        | .ok r => takeShort g r rest
        | .error stop => .error stop
      else
        match rest with
        | [] => .ok { r with pending := some (s, []) }
        | '=' :: value => r.add s [String.ofList value]
        | value => r.add s [String.ofList value]
    | none =>
      if c = 'h' ∧ g.helped then .error .help
      else if c = 'V' ∧ g.version.isSome then .error .version
      else .error .usage

/-- Takes an argument. -/
def take (g : Grammar) (r : Progress) (arg : String) : Except Stop Progress :=
  if r.trailing then r.takePositional g arg
  else
    match arg.toList with
    | ['-', '-'] => do
      let r ← r.close
      return { r with trailing := true }
    | '-' :: '-' :: cs =>
      let value := match cs.dropWhile (· ≠ '=') with
        | _ :: v => some (String.ofList v)
        | [] => none
      r.takeLong g (String.ofList (cs.takeWhile (· ≠ '='))) value
    | '-' :: c :: cs => do
      let r ← r.close
      r.takeShort g (c :: cs)
    | _ => r.takePlain g arg

/-- Whether an argument is the name of a command. -/
def isCommand (g : Grammar) (r : Progress) (arg : String) : Bool :=
  !r.trailing && r.pending.isNone && g.commands.any fun c => c.1 = arg

/-- Takes all arguments, up to a command. -/
def takeAll (g : Grammar) : Progress → List String → Except Stop Progress
  | r, [] => r.close
  | r, arg :: rest =>
    if r.isCommand g arg then .ok { r with given := { r.given with command := some (arg, rest) } }
    else
      match r.take g arg with
      | .error stop => .error stop
      | .ok r => takeAll g r rest

end Progress

/-- Checks that all that is required was given. -/
def Grammar.complete (g : Grammar) (given : Given) : Except Stop Given :=
  if (g.switches.any fun s => s.required && !given.has s.long) ||
      given.positionals.length < (g.positionals.filter (!·.rest)).length ||
      (!g.commands.isEmpty && given.command.isNone) then .error .usage
  else .ok given

/-- The values of an option, which are its defaults if it was not given. -/
def Grammar.valuesOf (g : Grammar) (given : Given) (long : String) : List String :=
  if given.has long then given.values long
  else ((g.switches.find? fun s => s.long = long).map Switch.defaults).getD []

/-- The value of an option. -/
def Grammar.valueOf (g : Grammar) (given : Given) (long : String) : String :=
  (g.valuesOf given long).headD ""

/-- Reads arguments. -/
def Grammar.read (g : Grammar) (args : List String) : Except Stop Given := do
  let r ← Progress.takeAll g ⟨.empty, none, false⟩ args
  g.complete r.given

end PrinterMotion.CommandLine
