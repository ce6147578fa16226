import ByteMachine.Fault

/-!
# Memory

Flat memory of 256 bytes, every cell zero at first. Addresses are natural numbers, because those
the machine computes may lie just past the end; an address outside is a fault and changes nothing.

`read_write_self` and `read_write_of_ne` say that a write is felt at its own address and nowhere
else, `read_load` that a load overwrites a prefix and leaves the cells behind it as they were.
-/

namespace ByteMachine

/-- The number of bytes of memory. -/
def memorySize : Nat := 256

/-- The contents of the memory. -/
structure Memory where
  cells : Vector UInt8 memorySize
  deriving DecidableEq

namespace Memory

/-- Memory with every cell zero. -/
def empty : Memory := ⟨Vector.replicate memorySize 0⟩

/-- The byte at an address. -/
def read (m : Memory) (address : Nat) : Except Fault UInt8 :=
  match m.cells[address]? with
  | some byte => .ok byte
  | none => .error (.addressOutOfBounds address memorySize)

/-- Stores a byte at an address. -/
def write (m : Memory) (address : Nat) (value : UInt8) : Except Fault Memory :=
  if h : address < memorySize then .ok ⟨m.cells.set address value h⟩
  else .error (.addressOutOfBounds address memorySize)

/-- Stores bytes from address zero on, all or none: what does not fit is a fault. -/
def load (m : Memory) (bytes : List UInt8) : Except Fault Memory :=
  if bytes.length ≤ memorySize then
    .ok ⟨Vector.ofFn fun i => bytes[i.val]?.getD m.cells[i]⟩
  else .error (.programTooLarge bytes.length memorySize)

/-- The bytes in order of their addresses. -/
def toList (m : Memory) : List UInt8 := m.cells.toList

/-- One access to memory from outside. -/
inductive Access where
  | read (address : Nat)
  | write (address : Nat) (value : UInt8)
  | load (bytes : List UInt8)
  deriving DecidableEq, Repr

/-- What an access gives, a byte only if it reads, and the memory after it. A failing access leaves
the memory as it was. -/
def perform (m : Memory) : Access → Except Fault (Option UInt8) × Memory
  | .read address => ((m.read address).map some, m)
  | .write address value =>
    match m.write address value with
    | .ok m' => (.ok none, m')
    | .error fault => (.error fault, m)
  | .load bytes =>
    match m.load bytes with
    | .ok m' => (.ok none, m')
    | .error fault => (.error fault, m)

/-! ## Reading after a change -/

/-- Reading succeeds exactly inside the memory. -/
theorem read_of_lt {m : Memory} {address : Nat} (h : address < memorySize) :
    m.read address = .ok m.cells[address] := by
  simp [read, h]

/-- Outside the memory, reading is a fault that names the address. -/
theorem read_of_le {m : Memory} {address : Nat} (h : memorySize ≤ address) :
    m.read address = .error (.addressOutOfBounds address memorySize) := by
  simp [read, h]

/-- A written byte is read back. -/
theorem read_write_self {m m' : Memory} {address : Nat} {value : UInt8}
    (h : m.write address value = .ok m') : m'.read address = .ok value := by
  unfold write at h
  split at h
  · cases h
    rename_i ha
    simp [read, ha]
  · cases h

/-- A write leaves every other cell as it was. -/
theorem read_write_of_ne {m m' : Memory} {address other : Nat} {value : UInt8}
    (h : m.write address value = .ok m') (hne : other ≠ address) :
    m'.read other = m.read other := by
  unfold write at h
  split at h
  · cases h
    simp [read, Vector.getElem?_set_ne _ (Ne.symm hne)]
  · cases h

/-- After a load, an address holds the loaded byte if the load reached it, and its old byte
otherwise. -/
theorem read_load {m m' : Memory} {bytes : List UInt8} (h : m.load bytes = .ok m')
    {address : Nat} (ha : address < memorySize) :
    m'.read address = .ok (bytes[address]?.getD m.cells[address]) := by
  unfold load at h
  split at h
  · rw [← Except.ok.inj h, read_of_lt ha, Vector.getElem_ofFn]
    rfl
  · cases h

end Memory

end ByteMachine
