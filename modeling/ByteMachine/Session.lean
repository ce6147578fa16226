import ByteMachine.Arguments
import ByteMachine.Loader
import ByteMachine.Run

/-!
# Sessions

A session is the whole life of the program on a command line: it reads its arguments, loads a
program, runs it and ends with an exit status. What a session does to the world is a list of
`Event`s in the order in which they happen, and its `Transcript` is that list with the log settings
in force and the status. The two output streams are views of a transcript.

The file system enters as what reading the program's path gives. After that either there is nothing
to run, or a machine is loaded and everything else depends on its run: `Session.start` answers with
a finished transcript or with a machine that is `ready`, and `Session.observe` and
`Session.conclude` say what each step and the end of the run add. A session whose run never ends has
no transcript.
-/

namespace ByteMachine

/-- Something a session does to the world. -/
inductive Event where
  /-- A printed value goes to standard output, as a decimal line. -/
  | printed (value : UInt8)
  /-- A record goes to the log, which is written to standard error. -/
  | logged (record : Log.Record)
  /-- A diagnostic goes to standard error as it is. -/
  | reported (diagnostic : String)
  deriving DecidableEq, Repr

namespace Event

/-- A record of a failure. -/
def failed (failure : Failure) : Event := logged ⟨.error, failure.message⟩

/-- The line of a printed value. -/
def printedLine (value : UInt8) : String := decimal value.toNat ++ "\n"

/-- What an event writes to standard output while it works. -/
def stdout : Event → String
  | printed value => printedLine value
  | logged _ | reported _ => ""

/-- The record that takes the place of a value which could not be printed. -/
def lost (value : UInt8) : Log.Record :=
  ⟨.warn, "failed to write " ++ decimal value.toNat ++ " to stdout"⟩

/-- What an event writes to standard error, given whether standard output works. -/
def stderr (settings : Log.Settings) (colour works : Bool) (stamp : String) : Event → String
  | printed value => if works then "" else settings.write colour stamp (lost value)
  | logged record => settings.write colour stamp record
  | reported diagnostic => diagnostic

end Event

/-- A finished session. -/
structure Transcript where
  /-- The log settings in force. -/
  settings : Log.Settings
  events : List Event
  status : ExitStatus

namespace Transcript

/-- Everything written to standard output; nothing, if it does not work. -/
def stdout (t : Transcript) (works : Bool) : String :=
  if works then String.join (t.events.map Event.stdout) else ""

/-- Everything written to standard error, every log line at the time `stamp`. -/
def stderr (t : Transcript) (colour works : Bool) (stamp : String) : String :=
  String.join (t.events.map (Event.stderr t.settings colour works stamp))

end Transcript

namespace Session

/-- The lines of the help text, with the name under which the program was started. -/
def usageLines (program : String) : List String :=
  ["LS-8 Emulator",
    "",
    "USAGE:",
    "    " ++ program ++ " <program.ls8> [OPTIONS]",
    "",
    "ARGS:",
    "    <program.ls8>    Program source, one binary byte per line",
    "",
    "OPTIONS:",
    "    -t, --trace         Log the machine state before every instruction",
    "        --no-timestamp  Omit timestamps from log lines",
    "    -h, --help          Print this help message",
    "",
    "EXAMPLES:",
    "    " ++ program ++ " print8.ls8",
    "    " ++ program ++ " call.ls8 --trace"]

/-- The help text, each line ended by a line feed. -/
def usage (program : String) : String :=
  String.join ((usageLines program).map (· ++ "\n"))

/-- A record of the help text. -/
def help (program : String) : Event := .logged ⟨.info, usage program⟩

/-- The settings a log starts with, before a command line has been understood. -/
def initialSettings : Log.Settings := {}

/-- How a session begins. -/
inductive Beginning where
  /-- There is nothing to run. -/
  | finished (transcript : Transcript)
  /-- A machine is loaded. -/
  | ready (settings : Log.Settings) (events : List Event) (machine : Machine)

/-- The events that report a program which could not be loaded. A malformed line has its diagnostic
and needs no record. -/
def reportLoad (error : LoadError) (diagnostic : String) : List Event :=
  match error with
  | .malformed _ => [.reported diagnostic]
  | error => [.failed (.load error)]

/-- Loads the program of a run, given what reading its path gave. -/
def prepare (config : Config) (found : ReadResult) : Beginning :=
  let settings := config.applyTo initialSettings
  let loaded := Loader.load config.program found
  match loaded.result with
  | .error e =>
    .finished ⟨settings, reportLoad e loaded.diagnostic, (Failure.load e).exitStatus⟩
  | .ok bytes =>
    let events := [Event.logged
      ⟨.trace, "loaded " ++ decimal bytes.length ++ " bytes from " ++ config.program⟩]
    let outcome := (Exec.load bytes).apply Machine.initial
    match outcome.result with
    | .ok () => .ready settings events outcome.machine
    | .error f =>
      .finished ⟨settings, events ++ [.failed (.fault f)], (Failure.fault f).exitStatus⟩

/-- Begins a session under a program name, with its arguments and a way to read paths. -/
def start (program : String) (arguments : List String) (read : String → ReadResult) : Beginning :=
  match Request.ofArguments arguments with
  | .ok (.run config) => prepare config (read config.program)
  | .ok .help => .finished ⟨initialSettings, [help program], .success⟩
  | .error e =>
    .finished ⟨initialSettings, [.logged ⟨.error, e.message ++ "\n"⟩, help program], .failure⟩

/-- The events of a step: the trace line of the machine before it, then what it printed. -/
def observe : Observer Event := fun m outcome =>
  .logged ⟨.trace, m.traceLine⟩ :: outcome.printed.map .printed

/-- The events at the end of a run, and the exit status. -/
def conclude (result : Except Fault Unit) (m : Machine) : List Event × ExitStatus :=
  match result with
  | .ok () => ([.logged ⟨.trace, "halted at pc " ++ Numeral.location.write m.pc⟩], .success)
  | .error f => ([.failed (.fault f)], (Failure.fault f).exitStatus)

/-- A whole session, if it ends. -/
def transcript (program : String) (arguments : List String) (read : String → ReadResult) :
    Option Transcript :=
  match start program arguments read with
  | .finished t => some t
  | .ready settings events m =>
    (m.runWith observe).map fun run =>
      let (last, status) := conclude run.result run.machine
      ⟨settings, events ++ run.observed.toList ++ last, status⟩

end Session

end ByteMachine
