import ByteMachine.Fault

/-!
# Registers

Eight registers of one byte. The last one doubles as the stack pointer; the machine reads and
writes it without an index, so that those accesses cannot fail.
-/

namespace ByteMachine

/-- The number of registers. -/
def registerCount : Nat := 8

/-- The index of the register that serves as stack pointer. -/
def spIndex : UInt8 := 7

/-- The contents of the register file. -/
structure Registers where
  slots : Vector UInt8 registerCount
  deriving DecidableEq

namespace Registers

/-- Registers all zero. -/
def empty : Registers := ⟨Vector.replicate registerCount 0⟩

/-- The value of a register. -/
def get (r : Registers) (index : UInt8) : Except Fault UInt8 :=
  match r.slots[index.toNat]? with
  | some value => .ok value
  | none => .error (.invalidRegister index registerCount)

/-- Stores a value in a register. -/
def set (r : Registers) (index value : UInt8) : Except Fault Registers :=
  if h : index.toNat < registerCount then .ok ⟨r.slots.set index.toNat value h⟩
  else .error (.invalidRegister index registerCount)

/-- The stack pointer. -/
def sp (r : Registers) : UInt8 := r.slots.get ⟨spIndex.toNat, by decide⟩

/-- Registers with another stack pointer. -/
def withSp (r : Registers) (value : UInt8) : Registers :=
  ⟨r.slots.set spIndex.toNat value (by decide)⟩

/-- The values in order of their indices. -/
def toList (r : Registers) : List UInt8 := r.slots.toList

/-! ## Reading after a change -/

/-- Only an index past the last register is refused. -/
theorem get_of_lt {r : Registers} {index : UInt8} (h : index.toNat < registerCount) :
    r.get index = .ok r.slots[index.toNat] := by
  simp [get, h]

/-- Past the last register, reading is a fault that names the index. -/
theorem get_of_le {r : Registers} {index : UInt8} (h : registerCount ≤ index.toNat) :
    r.get index = .error (.invalidRegister index registerCount) := by
  simp [get, h]

/-- A stored value is read back. -/
theorem get_set_self {r r' : Registers} {index value : UInt8}
    (h : r.set index value = .ok r') : r'.get index = .ok value := by
  unfold set at h
  split at h
  · cases h
    rename_i hi
    simp [get, hi]
  · cases h

/-- A store leaves every other register as it was. -/
theorem get_set_of_ne {r r' : Registers} {index other value : UInt8}
    (h : r.set index value = .ok r') (hne : other ≠ index) : r'.get other = r.get other := by
  unfold set at h
  split at h
  · cases h
    have hne' : index.toNat ≠ other.toNat := fun e => hne (UInt8.toNat_inj.1 e.symm)
    simp [get, Vector.getElem?_set_ne _ hne']
  · cases h

/-- The stack pointer is the register of its index. -/
theorem get_spIndex (r : Registers) : r.get spIndex = .ok r.sp := by
  rw [get_of_lt (by decide)]
  rfl

@[simp] theorem sp_withSp (r : Registers) (value : UInt8) : (r.withSp value).sp = value :=
  Vector.getElem_set_self (by decide)

end Registers

end ByteMachine
