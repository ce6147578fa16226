/-!
# The instruction set

Every instruction is one opcode byte followed by zero, one or two operand bytes. The opcode byte is
laid out as `AABCDDDD`: `AA` counts the operands, `B` marks the instructions that the arithmetic
unit executes, `C` those that set the program counter themselves, and `DDDD` tells them apart.

The table is stated once, column by column, over the `Instruction` type. `decode?` is a look-up in
it: what a byte outside the table means is left to the machine, which knows where it was fetched.
-/

namespace ByteMachine

/-- What an operand byte stands for. -/
inductive OperandKind where
  /-- The index of a register. -/
  | register
  /-- A value taken as it is. -/
  | immediate
  deriving DecidableEq, Repr

/-- One column of the operand part of the table: the operand's name and its kind. -/
structure Operand where
  name : String
  kind : OperandKind
  deriving DecidableEq, Repr

/-- The nine instructions. -/
inductive Instruction where
  /-- Stop the machine. -/
  | hlt
  /-- `reg = value`. -/
  | ldi
  /-- Print `reg` as a decimal integer. -/
  | prn
  /-- `reg_a = reg_a + reg_b`. -/
  | add
  /-- `reg_a = reg_a * reg_b`. -/
  | mul
  /-- `sp -= 1`, then `mem[sp] = reg`. -/
  | push
  /-- `reg = mem[sp]`, then `sp += 1`. -/
  | pop
  /-- Push `pc + 2`, then `pc = reg`. -/
  | call
  /-- `pc = pop`. -/
  | ret
  deriving DecidableEq, Repr

namespace Instruction

/-- Every instruction, in the order of the table. -/
def all : List Instruction := [hlt, ldi, prn, add, mul, push, pop, call, ret]

/-- The byte that stands for the instruction in memory. -/
def opcode : Instruction → UInt8
  | hlt => 0b00000001
  | ldi => 0b10000010
  | prn => 0b01000111
  | add => 0b10100000
  | mul => 0b10100010
  | push => 0b01000101
  | pop => 0b01000110
  | call => 0b01010000
  | ret => 0b00010001

/-- The assembly name. -/
def mnemonic : Instruction → String
  | hlt => "HLT"
  | ldi => "LDI"
  | prn => "PRN"
  | add => "ADD"
  | mul => "MUL"
  | push => "PUSH"
  | pop => "POP"
  | call => "CALL"
  | ret => "RET"

/-- The operand bytes that follow the opcode, in order. -/
def operands : Instruction → List Operand
  | hlt | ret => []
  | ldi => [⟨"reg", .register⟩, ⟨"value", .immediate⟩]
  | add | mul => [⟨"reg_a", .register⟩, ⟨"reg_b", .register⟩]
  | prn | push | pop | call => [⟨"reg", .register⟩]

/-- Size in bytes, opcode included. -/
def width (i : Instruction) : Nat := 1 + i.operands.length

/-- The arithmetic unit executes the instruction (bit `B` of the opcode). -/
def usesAlu (i : Instruction) : Bool := i.opcode &&& 0b00100000 != 0

/-- The instruction sets the program counter itself (bit `C` of the opcode). -/
def setsPc (i : Instruction) : Bool := i.opcode &&& 0b00010000 != 0

/-- The instruction an opcode byte stands for, if it is in the table. -/
def decode? (byte : UInt8) : Option Instruction :=
  all.find? (·.opcode == byte)

/-- The instruction of an assembly name. -/
def ofMnemonic? (name : String) : Option Instruction :=
  all.find? (·.mnemonic == name)

/-- Two instructions set the program counter themselves. -/
theorem setsPc_iff {i : Instruction} : i.setsPc = true ↔ i = call ∨ i = ret := by
  cases i <;> decide

/-- The table leaves no instruction out. -/
theorem mem_all (i : Instruction) : i ∈ all := by
  cases i <;> decide

/-- Opcodes tell instructions apart, so decoding undoes encoding. -/
@[simp] theorem decode?_opcode (i : Instruction) : decode? i.opcode = some i := by
  cases i <;> rfl

end Instruction

end ByteMachine
