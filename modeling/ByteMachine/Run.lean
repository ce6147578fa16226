import ByteMachine.Numeral
import ByteMachine.Step

/-!
# Runs and traces

A run repeats steps until one halts the machine or faults. It need not end; but what a step does
depends on the program counter, the registers and the memory alone, and those have only
`configurationCount` values. A run that takes more steps than that has been somewhere twice and
goes round for ever, so the number of configurations is fuel enough to tell the two apart, and
`none` means that the run never ends.

`Machine.runWith` also collects what an observer sees of each step, in order; a plain run observes
the printed values.

The trace line of a machine shows the program counter, the three bytes it points to and all
registers, in hexadecimal:

```text
TRACE: 00 | 82 00 08 | 00 00 00 00 00 00 00 F4
```

Bytes past the end of memory are shown as `--`, so a line can be written of any machine.
-/

namespace ByteMachine

/-! ## Runs -/

/-- The number of ways to fill the program counter, the registers and the memory: the program
counter is an address or stands just behind the last one. -/
def configurationCount : Nat :=
  (memorySize + 1) * Nat.pow 256 registerCount * Nat.pow 256 memorySize

/-- What a finished run left. -/
structure Run (ε : Type) where
  result : Except Fault Unit
  machine : Machine
  /-- What was observed, in order. -/
  observed : Array ε

/-- What an observer makes of a step: the machine before it and its outcome. -/
abbrev Observer (ε : Type) := Machine → Outcome State → List ε

namespace Machine

/-- Runs for at most `fuel` steps, and at least one, adding to what was observed before. -/
def runFor {ε : Type} (observer : Observer ε) : Nat → Machine → Array ε → Option (Run ε)
  | 0, _, _ => none
  | fuel + 1, m, seen =>
    let outcome := m.step
    let seen := seen ++ observer m outcome
    match outcome.result with
    | .error fault => some ⟨.error fault, outcome.machine, seen⟩
    | .ok .running => runFor observer fuel outcome.machine seen
    | .ok _ => some ⟨.ok (), outcome.machine, seen⟩

/-- The run of a machine as an observer sees it, if it ends. -/
def runWith {ε : Type} (observer : Observer ε) (m : Machine) : Option (Run ε) :=
  m.runFor observer configurationCount #[]

/-- The run of a machine and the values it prints, if it ends. -/
def run (m : Machine) : Option (Run UInt8) := m.runWith fun _ outcome => outcome.printed

end Machine

/-! ## Traces -/

namespace Machine

/-- The byte at an address as the trace shows it. -/
def traceByte (m : Machine) (address : Nat) : String :=
  match m.memory.read address with
  | .ok byte => Numeral.hexByte byte
  | .error _ => "--"

/-- The trace line of a machine. -/
def traceLine (m : Machine) : String :=
  let bytes := [0, 1, 2].map fun k => m.traceByte (m.pc + k)
  let registers := m.registers.toList.map Numeral.hexByte
  "TRACE: " ++ Numeral.hexPair.write m.pc
    ++ " | " ++ " ".intercalate bytes ++ " | " ++ " ".intercalate registers

end Machine

/-- What is seen of steps that are taken one by one, with a look at the machine before each: it is how
a run is followed from outside, for as long as one cares to look. -/
structure TracedSteps where
  /-- The trace lines of the machines before the steps, in order. -/
  lines : List String
  /-- The outcome of the last step; without any, the machine as it was. -/
  outcome : Outcome State

/-- Takes at most `limit` steps, up to and with the first that does not leave the machine
running. -/
def Machine.traceSteps : Nat → Machine → TracedSteps
  | 0, m => ⟨[], ⟨.ok m.state, m, []⟩⟩
  | 1, m => ⟨[m.traceLine], m.step⟩
  | limit + 2, m =>
    let first := m.step
    match first.result with
    | .ok .running =>
      let rest := traceSteps (limit + 1) first.machine
      ⟨m.traceLine :: rest.lines,
        { rest.outcome with printed := first.printed ++ rest.outcome.printed }⟩
    | _ => ⟨[m.traceLine], first⟩

end ByteMachine
