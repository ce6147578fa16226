import ByteMachine.Fault
import ByteMachine.Source

/-!
# Loading

From what reading a path gave to the bytes of the program. What comes out of a file is bytes, which
have to be UTF-8 before they are a source. A malformed source is the one failure that is explained
by a diagnostic, which quotes the source and is gone with it; every other failure is explained by
its own message.

What can go wrong between a path on the command line and a halted machine is that the program cannot be
loaded (`LoadError`), or that the machine faults. `Failure` is either, and `ExitStatus` is what the
process reports about it.
-/

namespace ByteMachine

/-! ## Failures -/

/-- Why a program could not be loaded. -/
inductive LoadError where
  | malformed (place : Malformed)
  /-- The path leads to no file. -/
  | notFound (path : String)
  /-- The file is there and could not be read. -/
  | unreadable (path reason : String)
  deriving DecidableEq, Repr

/-- The text of a load error. -/
def LoadError.message : LoadError → String
  | malformed m => m.message
  | notFound path => "file not found: " ++ path
  | unreadable path reason => "io error reading " ++ path ++ ": " ++ reason

/-- What a process reports when it ends. -/
inductive ExitStatus where
  | success
  /-- A bad command line, a malformed program or an unreadable file. -/
  | failure
  /-- There is no program file. -/
  | notFound
  /-- The machine faulted. -/
  | fault
  deriving DecidableEq, Repr

/-- The number of an exit status. -/
def ExitStatus.code : ExitStatus → UInt32
  | success => 0
  | failure => 1
  | notFound => 2
  | fault => 3

/-- Either of the two ways to fail. -/
inductive Failure where
  | load (error : LoadError)
  | fault (fault : Fault)
  deriving DecidableEq, Repr

namespace Failure

/-- The text of a failure. -/
def message : Failure → String
  | load e => e.message
  | fault f => f.message

/-- The failure is an access out of range; a load never is. -/
def isOutOfBounds : Failure → Bool
  | load _ => false
  | fault f => f.isOutOfBounds

/-- The exit status that reports a failure. -/
def exitStatus : Failure → ExitStatus
  | load (.notFound _) => .notFound
  | load (.malformed _) | load (.unreadable ..) => .failure
  | fault _ => .fault

end Failure

/-! ## Loading -/

/-- What reading a path gives. -/
inductive ReadResult where
  /-- The whole contents of the file. -/
  | contents (bytes : ByteArray)
  /-- The path leads to nothing. -/
  | missing
  /-- The path could not be read, and why. -/
  | failed (reason : String)

namespace Loader

/-- The source at a path. -/
def source (path : String) : ReadResult → Except LoadError String
  | .missing => .error (.notFound path)
  | .failed reason => .error (.unreadable path reason)
  | .contents bytes =>
    match String.fromUTF8? bytes with
    | some text => .ok text
    | none => .error (.unreadable path "stream did not contain valid UTF-8")

/-- What loading a program came to. -/
structure Loaded where
  result : Except LoadError (List UInt8)
  /-- The diagnostic that goes with it; only a malformed line has one. -/
  diagnostic : String := ""

/-- Loads the program at a path. -/
def load (path : String) (found : ReadResult) : Loaded :=
  match source path found with
  | .error e => { result := .error e }
  | .ok text =>
    match Source.parse text with
    | .ok bytes => { result := .ok bytes }
    | .error m =>
      { result := .error (.malformed m)
        diagnostic := Diagnostic.render path text m.line m.offset m.message }

end Loader

end ByteMachine
