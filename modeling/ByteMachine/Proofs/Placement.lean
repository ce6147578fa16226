import ByteMachine.Proofs.Contents
import ByteMachine.Step

/-!
# Operations in memory

`Memory.Spells` says that bytes stand in memory one after the other, `Machine.PointsAt` that the
program counter stands at the bytes of an operation. Neither mentions decoding: an operation is
where its bytes are.

Fetching finds the operation that the program counter points at, and where there is none it fails
for one of three reasons (`fetch_cases`): there is no byte, the byte is no opcode, or the operands
run over the end of memory. In the last case the operand that is missed first is always the one at
address 256.
-/

namespace ByteMachine

namespace Instruction

/-- A byte decodes to the instruction whose opcode it is. -/
theorem decode?_eq_some_iff {byte : UInt8} {i : Instruction} :
    decode? byte = some i ↔ byte = i.opcode := by
  constructor
  · intro h
    have hbyte := List.find?_some h
    exact (beq_iff_eq.1 hbyte).symm
  · rintro rfl
    exact decode?_opcode i

/-- A byte does not decode when it is nobody's opcode. -/
theorem decode?_eq_none_iff {byte : UInt8} : decode? byte = none ↔ ∀ i, opcode i ≠ byte := by
  constructor
  · intro h i hi
    rw [← hi, decode?_opcode] at h
    cases h
  · intro h
    cases hd : decode? byte with
    | none => rfl
    | some i => exact absurd (decode?_eq_some_iff.1 hd).symm (h i)

end Instruction

namespace Memory

/-- The bytes stand in memory, the first of them at an address. -/
def Spells (m : Memory) (address : Nat) : List UInt8 → Prop
  | [] => True
  | byte :: rest => m.read address = .ok byte ∧ m.Spells (address + 1) rest

instance decidableSpells (m : Memory) :
    (address : Nat) → (bytes : List UInt8) → Decidable (m.Spells address bytes)
  | _, [] => .isTrue trivial
  | address, byte :: rest =>
    have := decidableSpells m (address + 1) rest
    inferInstanceAs (Decidable (m.read address = .ok byte ∧ m.Spells (address + 1) rest))

/-- What stands in memory lies within it. -/
theorem Spells.add_length_le {m : Memory} {address : Nat} {bytes : List UInt8}
    (h : m.Spells address bytes) (hne : bytes ≠ []) : address + bytes.length ≤ memorySize := by
  induction bytes generalizing address with
  | nil => exact absurd rfl hne
  | cons byte rest ih =>
    obtain ⟨hread, hrest⟩ := h
    cases rest with
    | nil => exact lt_of_read_eq_ok hread
    | cons next rest =>
      have := ih hrest (List.cons_ne_nil _ _)
      simp only [List.length_cons] at this ⊢
      omega

/-- The byte at a position of what stands in memory. -/
theorem Spells.read_eq {m : Memory} {address i : Nat} {bytes : List UInt8} {byte : UInt8}
    (h : m.Spells address bytes) (hi : bytes[i]? = some byte) : m.read (address + i) = .ok byte := by
  induction bytes generalizing address i with
  | nil => cases hi
  | cons first rest ih =>
    obtain ⟨hread, hrest⟩ := h
    cases i with
    | zero =>
      cases hi
      exact hread
    | succ i =>
      have hnext := ih hrest hi
      rwa [Nat.add_assoc, Nat.add_comm 1 i] at hnext

/-- Bytes that are read one after the other stand in memory. -/
theorem spells_of_read {m : Memory} {address : Nat} {bytes : List UInt8}
    (h : ∀ i byte, bytes[i]? = some byte → m.read (address + i) = .ok byte) :
    m.Spells address bytes := by
  induction bytes generalizing address with
  | nil => trivial
  | cons first rest ih =>
    refine ⟨h 0 first rfl, ih fun i byte hi => ?_⟩
    rw [Nat.add_assoc, Nat.add_comm 1 i]
    exact h (i + 1) byte hi

/-- Loaded bytes stand in memory from address zero on. -/
theorem spells_of_load {m m' : Memory} {bytes : List UInt8} (h : m.load bytes = .ok m') :
    m'.Spells 0 bytes := by
  have hsize : bytes.length ≤ memorySize := by
    by_contra hgt
    rw [load, if_neg hgt] at h
    cases h
  refine spells_of_read fun i byte hi => ?_
  have hlt : i < bytes.length := (List.getElem?_eq_some_iff.1 hi).1
  rw [Nat.zero_add, read_load h (Nat.lt_of_lt_of_le hlt hsize), hi]
  rfl

/-- Bytes stand in memory in two parts, the second behind the first. -/
theorem spells_append {m : Memory} {address : Nat} {first second : List UInt8} :
    m.Spells address (first ++ second) ↔
      m.Spells address first ∧ m.Spells (address + first.length) second := by
  induction first generalizing address with
  | nil => exact (and_iff_right trivial).symm
  | cons byte rest ih =>
    have hnext : address + 1 + rest.length = address + (byte :: rest).length := by
      rw [List.length_cons, Nat.add_assoc, Nat.add_comm 1]
    rw [List.cons_append, Spells, ih, Spells, hnext, and_assoc]

/-- What stands in memory stays when a cell beside it is written. -/
theorem Spells.withCell {m : Memory} {address : Nat} {bytes : List UInt8}
    (h : m.Spells address bytes) {a : UInt8} (ha : ∀ i < bytes.length, a.toNat ≠ address + i)
    (value : UInt8) : (m.withCell a value).Spells address bytes := by
  refine spells_of_read fun i byte hi => ?_
  have hne := ha i (List.getElem?_eq_some_iff.1 hi).1
  rw [read_write_of_ne (m.write_toNat a value) hne.symm]
  exact h.read_eq hi

end Memory

namespace Machine

/-- The program counter stands at the bytes of an operation. -/
def PointsAt (m : Machine) (o : Operation) : Prop := m.memory.Spells m.pc o.encode

instance (m : Machine) (o : Operation) : Decidable (m.PointsAt o) :=
  inferInstanceAs (Decidable (m.memory.Spells m.pc o.encode))

/-! ## Operands -/

/-- An operand byte that lies in memory is read. -/
theorem operand_of_lt {m : Machine} {k : Nat} (h : m.pc + k < memorySize) :
    ∃ byte, m.operand k = .ok byte :=
  ⟨_, Memory.read_of_lt h⟩

/-- The operand byte just past the end of memory is a fault at that address. -/
theorem operand_of_eq {m : Machine} {k : Nat} (h : m.pc + k = memorySize) :
    m.operand k = .error (.addressOutOfBounds memorySize memorySize) := by
  rw [operand, h, Memory.read_of_le (Nat.le_refl _)]

/-- An instruction whose operands lie in memory forms an operation with the bytes behind it. -/
theorem complete_of_fits {m : Machine} {i : Instruction} (h : m.pc + i.width ≤ memorySize) :
    ∃ o, m.complete i = .ok o ∧ o.instruction = i ∧ m.memory.Spells (m.pc + 1) o.operands := by
  cases i with
  | hlt | ret => exact ⟨_, rfl, rfl, trivial⟩
  | prn | push | pop | call =>
    obtain ⟨x, hx⟩ := operand_of_lt (m := m) (k := 1) h
    refine ⟨_, by rw [complete, hx]; rfl, rfl, ?_⟩
    exact ⟨hx, trivial⟩
  | ldi | add | mul =>
    obtain ⟨x, hx⟩ := operand_of_lt (m := m) (k := 1) (Nat.lt_of_succ_lt h)
    obtain ⟨y, hy⟩ := operand_of_lt (m := m) (k := 2) h
    refine ⟨_, by rw [complete, hx, hy]; rfl, rfl, ?_⟩
    exact ⟨hx, hy, trivial⟩

/-- Operands that run over the end of memory are a fault at the first address past it, however many
of them are missing. -/
theorem complete_of_overhang {m : Machine} {i : Instruction} (hpc : m.pc < memorySize)
    (h : memorySize < m.pc + i.width) :
    m.complete i = .error (.addressOutOfBounds memorySize memorySize) := by
  cases i with
  | hlt | ret => exact absurd h (Nat.not_lt.2 hpc)
  | prn | push | pop | call =>
    have heq : m.pc + 1 = memorySize := Nat.le_antisymm hpc (Nat.le_of_lt_succ h)
    rw [complete, operand_of_eq heq]
    rfl
  | ldi | add | mul =>
    -- Either the second operand is the one at the end of memory or the first one is.
    rcases Nat.lt_or_eq_of_le hpc with hlt | heq
    · obtain ⟨x, hx⟩ := operand_of_lt (m := m) (k := 1) hlt
      have heq : m.pc + 2 = memorySize := Nat.le_antisymm hlt (Nat.le_of_lt_succ h)
      rw [complete, hx, operand_of_eq heq]
      rfl
    · rw [complete, operand_of_eq heq]
      rfl

/-! ## Fetching -/

theorem fetch_of_decode_none {m : Machine} {byte : UInt8} (hread : m.memory.read m.pc = .ok byte)
    (hdecode : Instruction.decode? byte = none) : m.fetch = .error (.unknownOpcode byte m.pc) := by
  simp only [fetch, hread, bind, Except.bind, hdecode]
  rfl

theorem fetch_of_decode_some {m : Machine} {byte : UInt8} {i : Instruction}
    (hread : m.memory.read m.pc = .ok byte) (hdecode : Instruction.decode? byte = some i) :
    m.fetch = m.complete i := by
  simp only [fetch, hread, bind, Except.bind, hdecode]

/-- Fetching finds the operation that the program counter points at, or else it fails for one of
three reasons. -/
theorem fetch_cases (m : Machine) :
    (∃ o, m.PointsAt o ∧ m.fetch = .ok o) ∨
    (memorySize ≤ m.pc ∧ m.fetch = .error (.addressOutOfBounds m.pc memorySize)) ∨
    (∃ byte, m.memory.read m.pc = .ok byte ∧ (∀ i, Instruction.opcode i ≠ byte) ∧
      m.fetch = .error (.unknownOpcode byte m.pc)) ∨
    (∃ i, m.memory.read m.pc = .ok (Instruction.opcode i) ∧ memorySize < m.pc + i.width ∧
      m.fetch = .error (.addressOutOfBounds memorySize memorySize)) := by
  cases hread : m.memory.read m.pc with
  | error fault =>
    obtain ⟨hpc, rfl⟩ := Memory.read_eq_error hread
    exact .inr (.inl ⟨hpc, by rw [fetch, hread]; rfl⟩)
  | ok byte =>
    have hpc := Memory.lt_of_read_eq_ok hread
    cases hdecode : Instruction.decode? byte with
    | none =>
      have hnone := Instruction.decode?_eq_none_iff.1 hdecode
      exact .inr (.inr (.inl ⟨byte, rfl, hnone, fetch_of_decode_none hread hdecode⟩))
    | some i =>
      have hfetch := fetch_of_decode_some hread hdecode
      obtain rfl := Instruction.decode?_eq_some_iff.1 hdecode
      rcases Nat.lt_or_ge memorySize (m.pc + i.width) with hover | hfits
      · rw [complete_of_overhang hpc hover] at hfetch
        exact .inr (.inr (.inr ⟨i, rfl, hover, hfetch⟩))
      · obtain ⟨o, hcomplete, rfl, hspells⟩ := complete_of_fits hfits
        rw [hcomplete] at hfetch
        exact .inl ⟨o, ⟨hread, hspells⟩, hfetch⟩

/-- The operation that the program counter points at is fetched. -/
theorem fetch_of_pointsAt {m : Machine} {o : Operation} (h : m.PointsAt o) : m.fetch = .ok o := by
  rw [fetch_of_decode_some h.1 (Instruction.decode?_opcode _)]
  cases o with
  | hlt | ret => rfl
  | prn x | push x | pop x | call x =>
    have hx : m.operand 1 = .ok x := h.2.1
    rw [Operation.instruction, complete, hx]
    rfl
  | ldi x y | add x y | mul x y =>
    have hx : m.operand 1 = .ok x := h.2.1
    have hy : m.operand 2 = .ok y := h.2.2.1
    rw [Operation.instruction, complete, hx, hy]
    rfl

/-- An operation is fetched exactly if the program counter points at it. -/
theorem fetch_eq_ok_iff {m : Machine} {o : Operation} : m.fetch = .ok o ↔ m.PointsAt o := by
  refine ⟨fun h => ?_, fetch_of_pointsAt⟩
  rcases fetch_cases m with ⟨p, hp, hf⟩ | ⟨_, hf⟩ | ⟨_, _, _, hf⟩ | ⟨_, _, _, hf⟩
  · rw [hf] at h
    obtain rfl := Except.ok.inj h
    exact hp
  all_goals
    rw [hf] at h
    cases h

/-- The program counter points at one operation at most. -/
theorem PointsAt.unique {m : Machine} {o p : Operation} (ho : m.PointsAt o) (hp : m.PointsAt p) :
    o = p := by
  have h := (fetch_of_pointsAt ho).symm.trans (fetch_of_pointsAt hp)
  exact Except.ok.inj h

/-- The operation that the program counter points at lies in memory. -/
theorem PointsAt.pc_add_width_le {m : Machine} {o : Operation} (h : m.PointsAt o) :
    m.pc + o.instruction.width ≤ memorySize := by
  have hle := Memory.Spells.add_length_le h (List.cons_ne_nil _ _)
  rwa [Operation.encode, List.length_cons, Operation.length_operands, Nat.add_comm _ 1] at hle

end Machine

end ByteMachine
