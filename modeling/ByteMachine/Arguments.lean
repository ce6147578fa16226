import ByteMachine.Log

/-!
# Command-line arguments

One program path, and options in any order around it. The arguments are read from the left and the
first decisive one settles the answer: a request for help, an unknown option or a second path end
the reading, whatever follows. Every other argument only adds to what is known, so the order and
the number of options do not matter.
-/

namespace ByteMachine

/-- What is wrong with a command line. -/
inductive UsageError where
  | missingProgram
  | unexpectedArgument (argument : String)
  | unknownOption (argument : String)
  deriving DecidableEq, Repr

/-- The text of a usage error. -/
def UsageError.message : UsageError → String
  | missingProgram => "missing program path"
  | unexpectedArgument argument => "unexpected argument: " ++ argument
  | unknownOption argument => "unknown option: " ++ argument

/-- The settings of one run. -/
structure Config where
  /-- The path of the program. -/
  program : String
  /-- Log the machine before every step. -/
  trace : Bool
  /-- Begin log lines with the time of day. -/
  timestamps : Bool
  deriving DecidableEq, Repr

/-- What a command line asks for. -/
inductive Request where
  | run (config : Config)
  | help
  deriving DecidableEq, Repr

/-- What an argument is by itself. -/
inductive Argument where
  | help
  | trace
  | noTimestamp
  /-- Begins with a dash, is longer than the dash, and is none of the above. -/
  | unknown
  /-- Anything else, the empty argument and a lone dash included. -/
  | positional
  deriving DecidableEq, Repr

/-- Tells what an argument is. -/
def Argument.classify (argument : String) : Argument :=
  if argument = "-h" ∨ argument = "--help" then help
  else if argument = "-t" ∨ argument = "--trace" then trace
  else if argument = "--no-timestamp" then noTimestamp
  else
    match argument.toList with
    | '-' :: _ :: _ => unknown
    | _ => positional

namespace Request

/-- What is known of a command line while its arguments are read. -/
structure Known where
  program : Option String := none
  trace : Bool := false
  timestamps : Bool := true

/-- Reads the remaining arguments. -/
def read (known : Known) : List String → Except UsageError Request
  | [] =>
    match known.program with
    | some program => .ok (.run ⟨program, known.trace, known.timestamps⟩)
    | none => .error .missingProgram
  | argument :: rest =>
    match Argument.classify argument, known.program with
    | .help, _ => .ok .help
    | .trace, _ => read { known with trace := true } rest
    | .noTimestamp, _ => read { known with timestamps := false } rest
    | .unknown, _ => .error (.unknownOption argument)
    | .positional, some _ => .error (.unexpectedArgument argument)
    | .positional, none => read { known with program := some argument } rest

/-- What the arguments behind the program's name ask for. -/
def ofArguments (arguments : List String) : Except UsageError Request := read {} arguments

end Request

/-- Log settings for a run: its least level and its timestamps, everything else as it was. -/
def Config.applyTo (config : Config) (settings : Log.Settings) : Log.Settings :=
  { settings with
    timestamps := config.timestamps
    minLevel := if config.trace then .trace else .info }

/-- What may happen to a log in the course of a program: a setting changes or a record is
logged. -/
inductive Log.Action where
  | setMinLevel (level : Level)
  | setTimestamps (on : Bool)
  | setLevelTags (on : Bool)
  | configure (config : Config)
  | log (record : Record)
  deriving DecidableEq, Repr

/-- The settings after an action and what it writes. -/
def Log.Settings.perform (s : Settings) (colour : Bool) (stamp : String) :
    Action → Settings × String
  | .setMinLevel level => ({ s with minLevel := level }, "")
  | .setTimestamps on => ({ s with timestamps := on }, "")
  | .setLevelTags on => ({ s with levelTags := on }, "")
  | .configure config => (config.applyTo s, "")
  | .log record => (s, s.write colour stamp record)

end ByteMachine
