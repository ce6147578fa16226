import ByteMachine.Numeral

/-!
# Faults

The seven ways in which the machine can refuse to go on. A fault carries the numbers its message
shows and nothing else, so that two faults with one message are one fault.
-/

namespace ByteMachine

/-- Why the machine stopped short of its program's end. -/
inductive Fault where
  /-- No instruction is assigned to the byte fetched at `pc`. -/
  | unknownOpcode (opcode : UInt8) (pc : Nat)
  /-- The arithmetic unit was asked for an instruction that it does not implement. -/
  | unsupportedOperation (mnemonic : String)
  /-- An address outside a memory of `size` bytes. -/
  | addressOutOfBounds (address size : Nat)
  /-- A register index outside a file of `available` registers. -/
  | invalidRegister (index : UInt8) (available : Nat)
  /-- A push would move the stack pointer below address zero. -/
  | stackOverflow (sp : UInt8)
  /-- A pop would move the stack pointer past the last address. -/
  | stackUnderflow (sp : UInt8)
  /-- A program of `length` bytes for a memory of `size`. -/
  | programTooLarge (length size : Nat)
  deriving DecidableEq, Repr

namespace Fault

/-- The text of a fault. -/
def message : Fault → String
  | unknownOpcode opcode pc =>
    "unknown opcode " ++ Numeral.bits.write opcode.toNat
      ++ " at pc " ++ Numeral.location.write pc
  | unsupportedOperation mnemonic => "unsupported ALU operation " ++ mnemonic
  | addressOutOfBounds address size =>
    "address " ++ Numeral.address.write address
      ++ " out of bounds (memory size " ++ decimal size ++ ")"
  | invalidRegister index available =>
    "register index " ++ decimal index.toNat
      ++ " out of bounds (" ++ decimal available ++ " registers)"
  | stackOverflow sp =>
    "stack overflow: cannot push with sp at " ++ Numeral.location.write sp.toNat
  | stackUnderflow sp =>
    "stack underflow: cannot pop with sp at " ++ Numeral.location.write sp.toNat
  | programTooLarge length size =>
    "program of " ++ decimal length ++ " bytes does not fit in " ++ decimal size
      ++ " bytes of memory"

/-- The fault is some flavour of an access out of range. -/
def isOutOfBounds : Fault → Bool
  | unknownOpcode .. | unsupportedOperation .. => false
  | addressOutOfBounds .. | invalidRegister .. | stackOverflow .. | stackUnderflow ..
  | programTooLarge .. => true

end Fault

end ByteMachine
