import ByteMachine.Machine

/-!
# Steps

An operation is an instruction together with its operand bytes, as they follow the opcode in
memory. `Machine.fetch` reads the operation at the program counter: the opcode first, then as many
operand bytes as the instruction has, each from the next address. Reading past the end of memory
and a byte that is no opcode are the faults of this stage; whether an operand names a register is
found out when the operation is executed.

One step fetches the operation at the program counter, executes it and moves the program counter.
Executing an operation says where to go on (`Flow`): behind the operation, at another address, or
nowhere. A step does not ask for the state it finds. It starts the machine, and leaves it running,
halted, or faulted.
-/

namespace ByteMachine

/-! ## Operations -/

/-- An instruction with its operand bytes. -/
inductive Operation where
  | hlt
  | ldi (register value : UInt8)
  | prn (register : UInt8)
  | add (a b : UInt8)
  | mul (a b : UInt8)
  | push (register : UInt8)
  | pop (register : UInt8)
  | call (register : UInt8)
  | ret
  deriving DecidableEq, Repr

namespace Operation

/-- The instruction of an operation. -/
def instruction : Operation → Instruction
  | hlt => .hlt
  | ldi .. => .ldi
  | prn _ => .prn
  | add .. => .add
  | mul .. => .mul
  | push _ => .push
  | pop _ => .pop
  | call _ => .call
  | ret => .ret

/-- The operand bytes of an operation, in the order in which they follow the opcode. -/
def operands : Operation → List UInt8
  | hlt | ret => []
  | ldi x y | add x y | mul x y => [x, y]
  | prn x | push x | pop x | call x => [x]

/-- The bytes of an operation in memory. -/
def encode (o : Operation) : List UInt8 := o.instruction.opcode :: o.operands

/-- An operation has as many operand bytes as the table gives its instruction. -/
theorem length_operands (o : Operation) :
    o.operands.length = o.instruction.operands.length := by
  cases o <;> rfl

end Operation

namespace Machine

/-- The operand byte `k` places after the opcode. -/
def operand (m : Machine) (k : Nat) : Except Fault UInt8 := m.memory.read (m.pc + k)

/-- The operation that an instruction at the program counter forms with the bytes behind it. -/
def complete (m : Machine) : Instruction → Except Fault Operation
  | .hlt => return .hlt
  | .ldi => return .ldi (← m.operand 1) (← m.operand 2)
  | .prn => return .prn (← m.operand 1)
  | .add => return .add (← m.operand 1) (← m.operand 2)
  | .mul => return .mul (← m.operand 1) (← m.operand 2)
  | .push => return .push (← m.operand 1)
  | .pop => return .pop (← m.operand 1)
  | .call => return .call (← m.operand 1)
  | .ret => return .ret

/-- The operation at the program counter. -/
def fetch (m : Machine) : Except Fault Operation := do
  let opcode ← m.memory.read m.pc
  match Instruction.decode? opcode with
  | some instruction => m.complete instruction
  | none => throw (.unknownOpcode opcode m.pc)

end Machine

/-! ## Execution -/

/-- Where execution goes on. -/
inductive Flow where
  /-- With the operation behind this one. -/
  | next
  /-- At an address. -/
  | jump (target : Nat)
  /-- Nowhere. -/
  | halt
  deriving DecidableEq, Repr

namespace Exec

/-- The address behind a call, where its return goes. It has to fit in a byte. -/
def returnAddress : Exec UInt8 := do
  let address := (← get).pc + Instruction.call.width
  if address ≤ 255 then return UInt8.ofNat address
  else throw (.addressOutOfBounds address memorySize)

/-- Executes an operation. Registers are combined by a unit, which is given the instruction and its
operand bytes. -/
def executeWith (unit : Instruction → UInt8 → UInt8 → Exec Unit) : Operation → Exec Flow
  | .hlt => return .halt
  | .ldi register value => do
    writeRegister register value
    return .next
  | .prn register => do
    print (← readRegister register)
    return .next
  | .add a b => do
    unit .add a b
    return .next
  | .mul a b => do
    unit .mul a b
    return .next
  | .push register => do
    -- The register is checked before the stack pointer moves, and read after it has moved.
    let _ ← readRegister register
    let top ← below (← sp)
    setSp top
    writeByte top.toNat (← readRegister register)
    return .next
  | .pop register => do
    let _ ← readRegister register
    let top ← sp
    let value ← readByte top.toNat
    -- The stack pointer moves up from where loading the register leaves it.
    let next ← above (if register = spIndex then value else top)
    writeRegister register value
    setSp next
    return .next
  | .call register => do
    let target ← readRegister register
    push (← returnAddress)
    return .jump target.toNat
  | .ret => return .jump (← pop).toNat

/-- Executes an operation with the arithmetic unit. -/
def execute (operation : Operation) : Exec Flow := executeWith alu operation

/-- Moves the program counter on from an operation, or stops the machine. -/
def proceed (operation : Operation) : Flow → Exec Unit
  | .next => do setPc ((← get).pc + operation.instruction.width)
  | .jump target => setPc target
  | .halt => setState .halted

/-- Executes the operation at the program counter of a machine that is running. -/
def cycle : Exec Unit := do
  let operation ← ofExcept (← get).fetch
  proceed operation (← execute operation)

end Exec

/-- Executes one operation. The result is the state the machine is left in. -/
def Machine.step (m : Machine) : Outcome State :=
  let outcome := Exec.cycle.apply { m with state := .running }
  match outcome.result with
  | .ok _ => { outcome with result := .ok outcome.machine.state }
  | .error fault =>
    { outcome with result := .error fault, machine := { outcome.machine with state := .faulted } }

end ByteMachine
