import ByteMachine.Machine
import Mathlib.Control.Monad.Basic

/-!
# The contents of a machine

Reading and writing are partial in general: an address may lie outside the memory, an index may
name no register. Where the address is itself a byte, and where the index has been checked, nothing
can go wrong, and these are the only accesses an instruction makes after its operands are fetched.

`Memory.cell` / `Memory.withCell` and `Registers.reg` / `Registers.withReg` are the total views. The
checked accesses are equal to them inside their range (`read_toNat`, `write_toNat`, `get_eq`,
`set_eq`), so that what an instruction does can be said, and reasoned about, without `Except`.
-/

namespace ByteMachine

namespace Memory

/-- Every byte is an address. -/
theorem toNat_lt_memorySize (address : UInt8) : address.toNat < memorySize := address.toNat_lt

/-- The byte in a cell. -/
def cell (m : Memory) (address : UInt8) : UInt8 :=
  m.cells.get ⟨address.toNat, toNat_lt_memorySize address⟩

/-- Memory with another byte in one cell. -/
def withCell (m : Memory) (address value : UInt8) : Memory :=
  ⟨m.cells.set address.toNat value (toNat_lt_memorySize address)⟩

/-- Reading at a byte's address succeeds. -/
theorem read_toNat (m : Memory) (address : UInt8) : m.read address.toNat = .ok (m.cell address) :=
  read_of_lt (toNat_lt_memorySize address)

/-- Writing at a byte's address succeeds. -/
theorem write_toNat (m : Memory) (address value : UInt8) :
    m.write address.toNat value = .ok (m.withCell address value) :=
  dif_pos (toNat_lt_memorySize address)

@[simp] theorem cell_withCell_self (m : Memory) (address value : UInt8) :
    (m.withCell address value).cell address = value :=
  Vector.getElem_set_self (toNat_lt_memorySize address)

theorem cell_withCell_other (m : Memory) {address other : UInt8} (value : UInt8)
    (h : other ≠ address) : (m.withCell address value).cell other = m.cell other := by
  have hne : address.toNat ≠ other.toNat := fun e => h (UInt8.toNat_inj.1 e.symm)
  exact Vector.getElem_set_ne (toNat_lt_memorySize address) (toNat_lt_memorySize other) hne

/-- A load leaves the cells behind its bytes as they were. -/
theorem cell_load_of_le {m m' : Memory} {bytes : List UInt8} (h : m.load bytes = .ok m')
    {a : UInt8} (ha : bytes.length ≤ a.toNat) : m'.cell a = m.cell a := by
  have hread := read_load h (toNat_lt_memorySize a)
  rw [read_toNat, List.getElem?_eq_none ha] at hread
  exact Except.ok.inj hread

/-- A read that succeeds was inside the memory. -/
theorem lt_of_read_eq_ok {m : Memory} {address : Nat} {byte : UInt8}
    (h : m.read address = .ok byte) : address < memorySize := by
  rcases Nat.lt_or_ge address memorySize with hlt | hge
  · exact hlt
  · rw [read_of_le hge] at h
    cases h

/-- Reading fails in one way only. -/
theorem read_eq_error {m : Memory} {address : Nat} {fault : Fault}
    (h : m.read address = .error fault) :
    memorySize ≤ address ∧ fault = .addressOutOfBounds address memorySize := by
  rcases Nat.lt_or_ge address memorySize with hlt | hge
  · rw [read_of_lt hlt] at h
    cases h
  · rw [read_of_le hge] at h
    exact ⟨hge, (Except.error.inj h).symm⟩

end Memory

namespace Registers

/-- The value of a register; an index past the last register stands for zero. -/
def reg (r : Registers) (index : UInt8) : UInt8 := r.slots[index.toNat]?.getD 0

/-- Registers with another value in one of them. -/
def withReg (r : Registers) (index value : UInt8) : Registers :=
  ⟨r.slots.setIfInBounds index.toNat value⟩

/-- In range, the two ways to write a slot are one. -/
theorem mk_set_eq_withReg (r : Registers) {index : UInt8} (value : UInt8)
    (h : index.toNat < registerCount) :
    (⟨r.slots.set index.toNat value h⟩ : Registers) = r.withReg index value := by
  have hslots : r.slots.set index.toNat value h = r.slots.setIfInBounds index.toNat value := by
    ext i hi
    rw [Vector.getElem_set, Vector.getElem_setIfInBounds]
  rw [withReg, hslots]

theorem toNat_lt_registerCount {index : UInt8} (h : index < 8) : index.toNat < registerCount :=
  UInt8.lt_iff_toNat_lt.1 h

/-- Reading checks the index and nothing else. -/
theorem get_eq (r : Registers) (index : UInt8) :
    r.get index =
      if index < 8 then .ok (r.reg index) else .error (.invalidRegister index registerCount) := by
  by_cases h : index < 8
  · have hlt := toNat_lt_registerCount h
    rw [if_pos h, get_of_lt hlt, reg, Vector.getElem?_eq_getElem hlt, Option.getD_some]
  · have hle : registerCount ≤ index.toNat := UInt8.le_iff_toNat_le.1 (UInt8.not_lt.1 h)
    rw [if_neg h, get_of_le hle]

/-- Writing checks the index and nothing else. -/
theorem set_eq (r : Registers) (index value : UInt8) :
    r.set index value =
      if index < 8 then .ok (r.withReg index value)
      else .error (.invalidRegister index registerCount) := by
  by_cases h : index < 8
  · have hlt := toNat_lt_registerCount h
    rw [if_pos h, set, dif_pos hlt, mk_set_eq_withReg r value hlt]
  · have hge : ¬ index.toNat < registerCount := fun hlt => h (UInt8.lt_iff_toNat_lt.2 hlt)
    rw [if_neg h, set, dif_neg hge]

theorem reg_withReg_self (r : Registers) {index : UInt8} (value : UInt8) (h : index < 8) :
    (r.withReg index value).reg index = value := by
  simp [reg, withReg, toNat_lt_registerCount h]

theorem reg_withReg_other (r : Registers) {index other : UInt8} (value : UInt8)
    (h : other ≠ index) : (r.withReg index value).reg other = r.reg other := by
  have hne : index.toNat ≠ other.toNat := fun e => h (UInt8.toNat_inj.1 e.symm)
  simp [reg, withReg, Vector.getElem?_setIfInBounds_ne hne]

/-- The stack pointer is the last register. -/
@[simp] theorem reg_spIndex (r : Registers) : r.reg spIndex = r.sp := rfl

/-- Moving the stack pointer is writing the last register. -/
theorem withSp_eq_withReg (r : Registers) (value : UInt8) :
    r.withSp value = r.withReg spIndex value :=
  mk_set_eq_withReg r value (by decide)

theorem reg_withSp (r : Registers) (index value : UInt8) :
    (r.withSp value).reg index = if index = spIndex then value else r.reg index := by
  rw [withSp_eq_withReg]
  by_cases h : index = spIndex
  · rw [if_pos h, h, reg_withReg_self r value (by decide)]
  · rw [if_neg h, reg_withReg_other r value h]

theorem sp_withReg (r : Registers) (index value : UInt8) :
    (r.withReg index value).sp = if index = spIndex then value else r.sp := by
  by_cases h : index = spIndex
  · rw [if_pos h, h, ← withSp_eq_withReg, sp_withSp]
  · rw [if_neg h]
    exact reg_withReg_other r value (Ne.symm h)

/-- Of two moves of the stack pointer the last one counts. -/
@[simp] theorem withSp_withSp (r : Registers) (first second : UInt8) :
    (r.withSp first).withSp second = r.withSp second := by
  simp [withSp]

/-- Moving the stack pointer to where it is changes nothing. -/
@[simp] theorem withSp_sp (r : Registers) : r.withSp r.sp = r :=
  congrArg Registers.mk (Vector.set_getElem_self (by decide))

/-- Writing a register and moving the stack pointer can be exchanged, if the register is another. -/
theorem withReg_withSp_comm (r : Registers) {index : UInt8} (value sp : UInt8) (hr : index < 8)
    (h : index ≠ spIndex) :
    (r.withSp sp).withReg index value = (r.withReg index value).withSp sp := by
  have hlt := toNat_lt_registerCount hr
  have hne : spIndex.toNat ≠ index.toNat := fun e => h (UInt8.toNat_inj.1 e.symm)
  rw [← mk_set_eq_withReg _ _ hlt, ← mk_set_eq_withReg _ _ hlt]
  exact congrArg Registers.mk (Vector.set_comm _ _ hne)

end Registers

namespace Machine

/-- The stack pointer of a machine. -/
def sp (m : Machine) : UInt8 := m.registers.sp

/-- The value of a register of a machine. -/
def reg (m : Machine) (index : UInt8) : UInt8 := m.registers.reg index

/-- The byte in a memory cell of a machine. -/
def cell (m : Machine) (address : UInt8) : UInt8 := m.memory.cell address

/-! ## One below and one above -/

theorem toNat_sub_one {sp : UInt8} (h : sp ≠ 0) : (sp - 1).toNat + 1 = sp.toNat := by
  have hpos : 1 ≤ sp := by grind
  rw [UInt8.toNat_sub_of_le _ _ hpos]
  have hle : 1 ≤ sp.toNat := UInt8.le_iff_toNat_le.1 hpos
  exact Nat.sub_add_cancel hle

theorem toNat_add_one {sp : UInt8} (h : sp ≠ 255) : (sp + 1).toNat = sp.toNat + 1 := by
  have hlt : sp.toNat < 255 := by
    have hle : sp.toNat < 256 := sp.toNat_lt
    have hne : sp.toNat ≠ 255 := fun e => h (UInt8.toNat_inj.1 e)
    omega
  rw [UInt8.toNat_add]
  exact Nat.mod_eq_of_lt (Nat.succ_lt_succ hlt)

end Machine

end ByteMachine
