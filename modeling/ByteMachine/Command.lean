import ByteMachine.Loader
import ByteMachine.Run

/-!
# Commands

Everything that can be asked of a machine from outside: to take or change a part of its contents,
to use its stack or its arithmetic unit, to step and to run. `Machine.perform` answers one of them.
A command may fail, and the machine takes the next one all the same, so a history of a machine is
any list of commands.
-/

namespace ByteMachine

/-- Something to ask of a machine. -/
inductive Command where
  /-- Go back to the initial machine. -/
  | reset
  /-- Load bytes at address zero. -/
  | load (bytes : List UInt8)
  /-- Load the bytes that a source spells. -/
  | loadSource (source : String)
  | step
  | run
  | readByte (address : Nat)
  | writeByte (address : Nat) (value : UInt8)
  | readRegister (index : UInt8)
  | writeRegister (index value : UInt8)
  | push (value : UInt8)
  | pop
  | alu (instruction : Instruction) (a b : UInt8)
  deriving DecidableEq, Repr

/-- What a command gives back. -/
inductive Answer where
  | done
  | value (byte : UInt8)
  | state (state : State)
  deriving DecidableEq, Repr

/-- What a command came to. -/
structure Reply where
  result : Except Failure Answer
  machine : Machine
  printed : List UInt8

/-- An outcome as a reply. -/
def Outcome.reply {α : Type} (outcome : Outcome α) (answer : α → Answer) : Reply where
  result := match outcome.result with
    | .ok value => .ok (answer value)
    | .error fault => .error (.fault fault)
  machine := outcome.machine
  printed := outcome.printed

/-- Answers a command. Only a run that never ends goes unanswered. -/
def Machine.perform (m : Machine) : Command → Option Reply
  | .reset => some ⟨.ok .done, Machine.initial, []⟩
  | .load bytes => some (((Exec.load bytes).apply m).reply fun _ => .done)
  | .loadSource source =>
    match Source.parse source with
    | .ok bytes => some (((Exec.load bytes).apply m).reply fun _ => .done)
    | .error malformed => some ⟨.error (.load (.malformed malformed)), m, []⟩
  | .step => some (m.step.reply .state)
  | .run => m.run.map fun run =>
    Outcome.reply ⟨run.result, run.machine, run.observed.toList⟩ fun _ => .done
  | .readByte address => some (((Exec.readByte address).apply m).reply .value)
  | .writeByte address value => some (((Exec.writeByte address value).apply m).reply fun _ => .done)
  | .readRegister index => some (((Exec.readRegister index).apply m).reply .value)
  | .writeRegister index value =>
    some (((Exec.writeRegister index value).apply m).reply fun _ => .done)
  | .push value => some (((Exec.push value).apply m).reply fun _ => .done)
  | .pop => some ((Exec.pop.apply m).reply .value)
  | .alu instruction a b => some (((Exec.alu instruction a b).apply m).reply fun _ => .done)

end ByteMachine
