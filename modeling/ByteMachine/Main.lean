import ByteMachine.Session
import Std.Time.DateTime.Timestamp

/-!
# The program

The command line of the machine. This module only connects a `Session` to the world: it reads the
arguments, one file, the clock and two environment variables, and writes each event as soon as it
happens, so that a program that never ends is seen to print.
-/

namespace ByteMachine.Main

/-- The time of day by the system's clock. -/
def stamp : IO String := do
  let now ← Std.Time.Timestamp.now
  return Log.timeOfDay now.toMillisecondsSinceUnixEpoch.toInt.toNat

/-- Standard error takes colours: there is a terminal type that knows them, and nobody objects. -/
def colour : IO Bool := do
  let terminal ← IO.getEnv "TERM"
  let objection ← IO.getEnv "NO_COLOR"
  return objection.isNone && terminal.isSome && terminal != some "dumb"

/-- The text of a system error, with its number. -/
def describe (details : String) (code : UInt32) : String :=
  details ++ " (os error " ++ decimal code.toNat ++ ")"

/-- Reads a path. -/
def readPath (path : String) : IO ReadResult := do
  try
    return .contents (← IO.FS.withFile path .read fun file => file.readBinToEnd)
  catch e =>
    return match e with
      | .noFileOrDirectory .. => .missing
      | .inappropriateType _ code details => .failed (describe details code)
      | .invalidArgument _ code details => .failed (describe details code)
      | .permissionDenied _ code details => .failed (describe details code)
      | e => .failed (toString e)

/-- Writes an event to the streams it is for. -/
def emit (settings : Log.Settings) (colour : Bool) (event : Event) : IO Unit := do
  let out ← IO.getStdout
  let works ← try
      out.putStr event.stdout
      out.flush
      pure true
    catch _ => pure false
  let text := event.stderr settings colour works (← stamp)
  unless text.isEmpty do
    try (← IO.getStderr).putStr text catch _ => pure ()

/-- Steps the machine to the end of its run, writing what every step does. -/
partial def loop (emit : Event → IO Unit) (m : Machine) : IO ExitStatus := do
  let outcome := m.step
  (Session.observe m outcome).forM emit
  let finish (result : Except Fault Unit) : IO ExitStatus := do
    let (last, status) := Session.conclude result outcome.machine
    last.forM emit
    return status
  match outcome.result with
  | .error fault => finish (.error fault)
  | .ok .running => loop emit outcome.machine
  | .ok _ => finish (.ok ())

end ByteMachine.Main

open ByteMachine in
/-- Runs a session and exits with its status. -/
def main (arguments : List String) : IO UInt32 := do
  let found ← match Request.ofArguments arguments with
    | .ok (.run config) => Main.readPath config.program
    | _ => pure .missing
  let colour ← Main.colour
  match Session.start "ls8" arguments fun _ => found with
  | .finished t =>
    t.events.forM (Main.emit t.settings colour)
    return t.status.code
  | .ready settings events m =>
    events.forM (Main.emit settings colour)
    return (← Main.loop (Main.emit settings colour) m).code
