import ByteMachine.Instruction
import ByteMachine.Memory
import ByteMachine.Registers

/-!
# The machine

A machine is a program counter, an execution state, eight registers and 256 bytes of memory.

What an instruction does to it is written in `Exec`: a computation on a machine at work
(`Execution`, the machine together with the values it has printed) that may end in a fault. The
machine survives a fault as it stood when the fault arose, so that "a fault changes nothing" is
something to prove of each operation and not a matter of how faults are raised. `Exec.apply`
performs a computation on a machine and returns its `Outcome`.

The stack lives in memory and grows down: a push moves the stack pointer down and writes there, a pop
reads where the stack pointer stands and moves it up. Neither lets the stack pointer wrap; a move that
would is the fault, raised before anything is changed.

The arithmetic unit combines two registers and stores the result in the first. Arithmetic is on bytes
and wraps. An instruction the unit does not implement is refused before a register is looked at.
-/

namespace ByteMachine

/-- Whether the machine is executing. -/
inductive State where
  /-- Not executing: fresh, reset, or stopped by its program. -/
  | halted
  /-- Fetching and executing instructions. -/
  | running
  /-- Stopped by a fault. -/
  | faulted
  deriving DecidableEq, Repr

/-- The machine. -/
structure Machine where
  /-- The address of the next instruction, possibly one past the end of memory. -/
  pc : Nat
  state : State
  registers : Registers
  memory : Memory
  deriving DecidableEq

/-- Where the stack begins. It grows down from here; the addresses from here on are the
machine's own. -/
def stackTop : UInt8 := 0xF4

/-- A halted machine at address zero, all zero but the stack pointer. -/
def Machine.initial : Machine where
  pc := 0
  state := .halted
  registers := Registers.empty.withSp stackTop
  memory := Memory.empty

/-- A machine at work, with the values it has printed so far. -/
structure Execution extends Machine where
  printed : List UInt8

/-- A computation on a machine at work. It may fault, and leaves the machine as it stands then. -/
abbrev Exec := EStateM Fault Execution

/-- What an operation on a machine left. -/
structure Outcome (α : Type) where
  result : Except Fault α
  machine : Machine
  /-- The values printed by the operation, in order. -/
  printed : List UInt8

namespace Exec

/-- Performs a computation on a machine that has printed nothing yet. -/
def apply {α : Type} (x : Exec α) (m : Machine) : Outcome α :=
  match x ⟨m, []⟩ with
  | .ok value e => ⟨.ok value, e.toMachine, e.printed⟩
  | .error fault e => ⟨.error fault, e.toMachine, e.printed⟩

/-- Goes on with a value, or raises the fault that stands in its place. -/
def ofExcept {α : Type} : Except Fault α → Exec α
  | .ok value => pure value
  | .error fault => throw fault

/-- The byte at an address. -/
def readByte (address : Nat) : Exec UInt8 := do
  ofExcept ((← get).memory.read address)

/-- Stores a byte at an address. -/
def writeByte (address : Nat) (value : UInt8) : Exec Unit := do
  let memory ← ofExcept ((← get).memory.write address value)
  modify fun e => { e with memory }

/-- The value of a register. -/
def readRegister (index : UInt8) : Exec UInt8 := do
  ofExcept ((← get).registers.get index)

/-- Stores a value in a register. -/
def writeRegister (index value : UInt8) : Exec Unit := do
  let registers ← ofExcept ((← get).registers.set index value)
  modify fun e => { e with registers }

/-- The stack pointer. -/
def sp : Exec UInt8 := return (← get).registers.sp

/-- Moves the stack pointer. -/
def setSp (value : UInt8) : Exec Unit :=
  modify fun e => { e with registers := e.registers.withSp value }

/-- Moves the program counter. -/
def setPc (pc : Nat) : Exec Unit := modify fun e => { e with pc }

/-- Changes the execution state. -/
def setState (state : State) : Exec Unit := modify fun e => { e with state }

/-- Prints a value. Printing cannot fail: the machine never learns what became of the value. -/
def print (value : UInt8) : Exec Unit :=
  modify fun e => { e with printed := e.printed ++ [value] }

/-- Stores bytes in memory from address zero on. -/
def load (bytes : List UInt8) : Exec Unit := do
  let memory ← ofExcept ((← get).memory.load bytes)
  modify fun e => { e with memory }

/-! ## The stack -/

/-- One below a stack pointer. -/
def below (sp : UInt8) : Exec UInt8 :=
  if sp = 0 then throw (.stackOverflow sp) else pure (sp - 1)

/-- One above a stack pointer. -/
def above (sp : UInt8) : Exec UInt8 :=
  if sp = 255 then throw (.stackUnderflow sp) else pure (sp + 1)

/-- Pushes a value. -/
def push (value : UInt8) : Exec Unit := do
  let top ← below (← sp)
  writeByte top.toNat value
  setSp top

/-- Pops a value. The byte is read first, so a pop at the last address fails on the move. -/
def pop : Exec UInt8 := do
  let top ← sp
  let value ← readByte top.toNat
  let next ← above top
  setSp next
  return value

end Exec

/-! ## The arithmetic unit -/

/-- How the arithmetic unit combines two bytes for an instruction, if it executes it at all. -/
def Instruction.arithmetic? : Instruction → Option (UInt8 → UInt8 → UInt8)
  | .add => some (· + ·)
  | .mul => some (· * ·)
  | _ => none

/-- The unit implements exactly the instructions whose opcode says so. -/
theorem Instruction.isSome_arithmetic? (i : Instruction) : i.arithmetic?.isSome = i.usesAlu := by
  cases i <;> rfl

/-- Performs an arithmetic instruction: `a = a op b` on the registers with those indices. -/
def Exec.alu (instruction : Instruction) (a b : UInt8) : Exec Unit :=
  match instruction.arithmetic? with
  | none => throw (.unsupportedOperation instruction.mnemonic)
  | some combine => do
    let x ← readRegister a
    let y ← readRegister b
    writeRegister a (combine x y)

end ByteMachine
