import ByteMachine.Proofs.Effect

/-!
# What an opcode promises

The bits of an opcode say how many operand bytes follow it, whether the arithmetic unit executes
the instruction, and whether the instruction sets the program counter itself. The machine asks none
of them. `Machine.complete` counts the operands of every instruction once more, `Exec.executeWith`
calls the unit where it does, and where execution goes on is for each operation to answer. This
module holds the three against the bits.

Completing an instruction reads the bytes behind it in order, as many as the top two bits say, and
stops at the first that is not there (`map_operands_complete`). A cycle executes an operation that has
been completed so, and nothing else, and then goes on as the operation answers (`Outcome.goneOn`).
Whatever it answers is what its bit `C` allows (`Operation.allows_flow`), so what a step asserts of an
answer holds. Only the operations with bit `B` reach the unit, and the unit implements them all.
-/

namespace ByteMachine

namespace Instruction

/-! ## The bits of an opcode -/

/-- The number of operand bytes that an opcode announces in its top two bits. -/
def announced (byte : UInt8) : Nat := (byte >>> 6).toNat

theorem announced_opcode (i : Instruction) : announced i.opcode = i.operands.length := by
  cases i <;> rfl

theorem setsPc_eq_false_iff {i : Instruction} :
    i.setsPc = false ↔ i.opcode &&& 0b00010000 = 0 := bne_eq_false_iff_eq

theorem setsPc_eq_true_iff {i : Instruction} :
    i.setsPc = true ↔ i.opcode &&& 0b00010000 ≠ 0 := bne_iff_ne

theorem usesAlu_eq_false_iff {i : Instruction} :
    i.usesAlu = false ↔ i.opcode &&& 0b00100000 = 0 := bne_eq_false_iff_eq

theorem usesAlu_eq_true_iff {i : Instruction} :
    i.usesAlu = true ↔ i.opcode &&& 0b00100000 ≠ 0 := bne_iff_ne

/-- Where an instruction may let execution go on: with what is behind it, unless it sets the program
counter itself, and else at another address. A step asserts this of every answer. -/
def Allows (i : Instruction) : Flow → Prop
  | .next => i.setsPc = false
  | .jump _ => i.setsPc = true
  | .halt => True

end Instruction

namespace Machine

/-! ## Operands -/

/-- The operand bytes are read from behind the opcode on, one after the other. -/
theorem map_operands_complete (m : Machine) (i : Instruction) :
    (m.complete i).map Operation.operands =
      (List.range i.operands.length).mapM fun k => m.memory.read (m.pc + 1 + k) := by
  have hfirst : m.memory.read (m.pc + 1 + 0) = m.operand 1 := rfl
  have hsecond : m.memory.read (m.pc + 1 + 1) = m.operand 2 := rfl
  cases i with
  | hlt | ret => rfl
  | prn | push | pop | call =>
    show _ = List.mapM _ [0]
    rw [List.mapM_cons, List.mapM_nil, hfirst, complete]
    cases m.operand 1 <;> rfl
  | ldi | add | mul =>
    show _ = List.mapM _ [0, 1]
    rw [List.mapM_cons, List.mapM_cons, List.mapM_nil, hfirst, hsecond, complete]
    cases m.operand 1 with
    | error fault => rfl
    | ok x => cases m.operand 2 <;> rfl

/-- There is an operation at the program counter exactly if its last operand lies in memory. -/
theorem exists_fetch_iff {m : Machine} {i : Instruction}
    (hread : m.memory.read m.pc = .ok i.opcode) :
    (∃ o, m.fetch = .ok o) ↔ m.pc + i.operands.length < memorySize := by
  have hfetch := fetch_of_decode_some hread (Instruction.decode?_opcode i)
  have hwidth : m.pc + i.width = m.pc + i.operands.length + 1 := by
    rw [Instruction.width, Nat.add_comm 1, Nat.add_assoc]
  rw [hfetch, ← Nat.succ_le_iff, Nat.succ_eq_add_one, ← hwidth]
  constructor
  · rintro ⟨o, ho⟩
    by_contra hover
    rw [complete_of_overhang (Memory.lt_of_read_eq_ok hread) (Nat.not_le.1 hover)] at ho
    cases ho
  · intro hfits
    obtain ⟨o, ho, -, -⟩ := complete_of_fits hfits
    exact ⟨o, ho⟩

end Machine

namespace Operation

/-! ## Where execution goes on -/

/-- Where an operation goes on is what its opcode allows. -/
theorem allows_flow (o : Operation) (m : Machine) : o.instruction.Allows (o.flow m) := by
  cases o with
  | hlt => trivial
  | ldi | prn | add | mul | push | pop =>
    exact Bool.eq_false_iff.2 (by simp [Instruction.setsPc_iff, instruction])
  | call r => exact Instruction.setsPc_iff.2 (.inl rfl)
  | ret => exact Instruction.setsPc_iff.2 (.inr rfl)

/-- Jumps lead into memory. -/
theorem lt_of_flow_eq_jump {o : Operation} {m : Machine} {target : Nat}
    (h : o.flow m = .jump target) : target < memorySize := by
  cases o with
  | hlt | ldi | prn | add | mul | push | pop => cases h
  | call r =>
    obtain rfl := Flow.jump.inj h
    exact Memory.toNat_lt_memorySize _
  | ret =>
    obtain rfl := Flow.jump.inj h
    exact Memory.toNat_lt_memorySize _

end Operation

/-- What executing an operation comes to when the machine has gone on as the operation answered: behind
it, at the target of a jump, or not at all. A fault stays as it is. -/
def Outcome.goneOn (o : Operation) (executed : Outcome Flow) : Outcome Unit :=
  match executed with
  | ⟨.ok .next, m, printed⟩ => ⟨.ok (), { m with pc := m.pc + o.instruction.width }, printed⟩
  | ⟨.ok (.jump target), m, printed⟩ => ⟨.ok (), { m with pc := target }, printed⟩
  | ⟨.ok .halt, m, printed⟩ => ⟨.ok (), { m with state := .halted }, printed⟩
  | ⟨.error fault, m, printed⟩ => ⟨.error fault, m, printed⟩

namespace Exec

/-- Without an operation to execute, a cycle is nothing but the fault. -/
theorem apply_cycle_of_fetch_error {m : Machine} {fault : Fault} (h : m.fetch = .error fault) :
    cycle.apply m = ⟨.error fault, m, []⟩ := by
  have hcycle := cycle_of_fetch_error (e := ⟨m, []⟩) h
  rw [apply, hcycle]

/-- A cycle executes the operation that it has fetched and goes on from it. -/
theorem apply_cycle_of_fetch_ok {m : Machine} {o : Operation} (h : m.fetch = .ok o) :
    cycle.apply m = ((execute o).apply m).goneOn o := by
  have hcycle : cycle ⟨m, []⟩ = (execute o >>= proceed o) ⟨m, []⟩ := by simp [cycle, h]
  rw [apply, hcycle, bind_apply, apply]
  cases execute o ⟨m, []⟩ with
  | error fault e => rfl
  | ok flow e => cases flow <;> rfl

/-- Executing an operation does not move the program counter. -/
theorem pc_apply_execute (o : Operation) (m : Machine) :
    ((execute o).apply m).machine.pc = m.pc := by
  rw [apply, execute_apply]
  cases o.fault? m <;> rfl

/-- Where execution goes on after an operation, if it succeeds, is the table's answer. -/
theorem flow_eq_of_execute {o : Operation} {m : Machine} {flow : Flow}
    (h : ((execute o).apply m).result = .ok flow) : o.flow m = flow := by
  rw [apply, execute_apply] at h
  cases hfault : o.fault? m with
  | some fault =>
    rw [hfault] at h
    cases h
  | none =>
    rw [hfault] at h
    exact Except.ok.inj h

/-! ## The arithmetic unit -/

/-- An operation whose opcode has bit `B` is a call of the unit with its operand bytes, and nothing
else, and the unit that is called is the arithmetic unit. -/
theorem executeWith_of_usesAlu {o : Operation} (h : o.instruction.usesAlu = true) :
    ∃ a b, o.operands = [a, b] ∧
      (execute o = do
        alu o.instruction a b
        return .next) ∧
      ∀ unit, executeWith unit o = (do
        unit o.instruction a b
        return .next) := by
  rw [← Instruction.isSome_arithmetic?] at h
  cases o with
  | add a b | mul a b => exact ⟨a, b, rfl, rfl, fun _ => rfl⟩
  | hlt | ldi | prn | push | pop | call | ret => cases h

/-- An operation whose opcode has no bit `B` is executed without the unit. -/
theorem executeWith_of_not_usesAlu {o : Operation} (h : o.instruction.usesAlu = false)
    (unit : Instruction → UInt8 → UInt8 → Exec Unit) : executeWith unit o = execute o := by
  rw [← Instruction.isSome_arithmetic?] at h
  cases o with
  | add | mul => cases h
  | hlt | ldi | prn | push | pop | call | ret => rfl

/-- The unit never refuses an instruction whose opcode has bit `B`. -/
theorem alu_ne_unsupported {i : Instruction} (h : i.usesAlu = true) (a b : UInt8) (m : Machine)
    (mnemonic : String) :
    ((alu i a b).apply m).result ≠ .error (.unsupportedOperation mnemonic) := by
  obtain ⟨combine, hcombine⟩ := Option.isSome_iff_exists.1 (i.isSome_arithmetic?.trans h)
  rw [apply, alu_apply hcombine]
  -- What is left to refuse is an operand that names no register.
  by_cases ha : a < 8 <;> by_cases hb : b < 8
  all_goals
    simp only [ha, hb, if_true, if_false]
    intro hresult
    cases hresult

end Exec

/-! ## The layout -/

/-- What the bits of an opcode promise of an operation that is executed on a machine. -/
structure KeepsLayout (byte : UInt8) (m : Machine) (o : Operation) : Prop where
  /-- Execution goes on behind the operation only if bit `C` is clear. The program counter has not been
  moved then, and what is behind the operation is no further than one past the end of memory. -/
  of_next : ((Exec.execute o).apply m).result = .ok .next →
    byte &&& 0b00010000 = 0 ∧ ((Exec.execute o).apply m).machine.pc = m.pc ∧
      m.pc + o.instruction.width ≤ memorySize
  /-- It goes on elsewhere only if bit `C` is set, and in memory. -/
  of_jump : ∀ target, ((Exec.execute o).apply m).result = .ok (.jump target) →
    byte &&& 0b00010000 ≠ 0 ∧ target < memorySize
  /-- What a step asserts of the answer holds. -/
  allowed : ∀ flow, ((Exec.execute o).apply m).result = .ok flow → o.instruction.Allows flow
  /-- With bit `B`, executing the operation is calling the arithmetic unit with its two operand bytes,
  and with another unit in its place it would be calling that one. -/
  of_unit : byte &&& 0b00100000 ≠ 0 → ∃ a b, o.operands = [a, b] ∧
    (Exec.execute o = do
      Exec.alu o.instruction a b
      return .next) ∧
    ∀ unit, Exec.executeWith unit o = (do
      unit o.instruction a b
      return .next)
  /-- Without it, the unit has no part in executing the operation. -/
  of_no_unit : byte &&& 0b00100000 = 0 → ∀ unit, Exec.executeWith unit o = Exec.execute o
  /-- With bit `B`, the unit implements the instruction, whatever the operands and the machine. -/
  supported : byte &&& 0b00100000 ≠ 0 → ∀ a b m' mnemonic,
    ((Exec.alu o.instruction a b).apply m').result ≠ .error (.unsupportedOperation mnemonic)

namespace Machine

/-- An operation that the program counter points at keeps what its opcode promises. -/
theorem PointsAt.keepsLayout {m : Machine} {o : Operation} (ho : m.PointsAt o) :
    KeepsLayout o.instruction.opcode m o where
  of_next h := by
    have hallows := o.allows_flow m
    rw [Exec.flow_eq_of_execute h] at hallows
    exact ⟨Instruction.setsPc_eq_false_iff.1 hallows, Exec.pc_apply_execute o m, ho.pc_add_width_le⟩
  of_jump target h := by
    have hallows := o.allows_flow m
    rw [Exec.flow_eq_of_execute h] at hallows
    have hflow := Exec.flow_eq_of_execute h
    exact ⟨Instruction.setsPc_eq_true_iff.1 hallows, Operation.lt_of_flow_eq_jump hflow⟩
  allowed flow h := by
    rw [← Exec.flow_eq_of_execute h]
    exact o.allows_flow m
  of_unit h := Exec.executeWith_of_usesAlu (Instruction.usesAlu_eq_true_iff.2 h)
  of_no_unit h := Exec.executeWith_of_not_usesAlu (Instruction.usesAlu_eq_false_iff.2 h)
  supported h := Exec.alu_ne_unsupported (Instruction.usesAlu_eq_true_iff.2 h)

/-- **Execution keeps what an opcode promises.** Wherever an opcode is decoded, its operand bytes are
read one after the other from the address behind it, as many as its top two bits say, and an operation
is fetched exactly if all of them lie in memory: the one with that instruction and those bytes. If
there is none, a cycle executes nothing and leaves the machine as it is, with the fault of the byte
that is missing. If there is one, the cycle is to execute it and then to go on as it answers, which is
as bit `C` says and no further than one past the end of memory, so that what a step asserts of the
answer holds; and it combines registers by the unit exactly with bit `B`, which the unit then never
refuses. -/
theorem execution_keeps_opcode_layout (m : Machine) (byte : UInt8) (i : Instruction)
    (hread : m.memory.read m.pc = .ok byte) (hdecode : Instruction.decode? byte = some i) :
    i.width = 1 + Instruction.announced byte ∧
    m.fetch.map Operation.operands =
      ((List.range (Instruction.announced byte)).mapM fun k => m.memory.read (m.pc + 1 + k)) ∧
    ((∃ o, m.fetch = .ok o) ↔ m.pc + Instruction.announced byte < memorySize) ∧
    (∀ fault, m.fetch = .error fault → Exec.cycle.apply m = ⟨.error fault, m, []⟩) ∧
    ∀ o, m.fetch = .ok o → o.instruction = i ∧
      Exec.cycle.apply m = ((Exec.execute o).apply m).goneOn o ∧ KeepsLayout byte m o := by
  have hfetch := fetch_of_decode_some hread hdecode
  obtain rfl := Instruction.decode?_eq_some_iff.1 hdecode
  rw [i.announced_opcode]
  refine ⟨rfl, ?_, exists_fetch_iff hread, fun _ => Exec.apply_cycle_of_fetch_error, fun o ho => ?_⟩
  · rw [hfetch]
    exact m.map_operands_complete i
  · have hpoints := fetch_eq_ok_iff.1 ho
    -- The operation begins with the byte that was decoded, so it has that instruction.
    have hopcode := Except.ok.inj (hpoints.1.symm.trans hread)
    have hinstruction := Instruction.decode?_opcode o.instruction
    rw [hopcode, hdecode] at hinstruction
    refine ⟨(Option.some.inj hinstruction).symm, Exec.apply_cycle_of_fetch_ok ho, ?_⟩
    rw [← hopcode]
    exact hpoints.keepsLayout

/-- An addition in the last three cells goes on one past the end of memory. -/
theorem execution_keeps_opcode_layout_of_last_cells :
    ∃ m : Machine, m.memory.read m.pc = .ok 0xA0 ∧ Instruction.decode? 0xA0 = some .add ∧
      m.fetch = .ok (.add 1 2) ∧ ((Exec.execute (.add 1 2)).apply m).result = .ok .next ∧
      Exec.cycle.apply m = ((Exec.execute (.add 1 2)).apply m).goneOn (.add 1 2) ∧
      (Exec.cycle.apply m).machine.pc = memorySize ∧ KeepsLayout 0xA0 m (.add 1 2) := by
  have hread : (((Memory.empty.withCell 253 0xA0).withCell 254 1).withCell 255 2).read 253 =
      .ok 0xA0 := by
    decide +kernel
  obtain ⟨-, -, -, -, hkeeps⟩ :=
    execution_keeps_opcode_layout { initial with pc := 253, memory := _ } 0xA0 .add hread (by decide)
  have hfetch : fetch { initial with
      pc := 253
      memory := ((Memory.empty.withCell 253 0xA0).withCell 254 1).withCell 255 2 } =
        .ok (.add 1 2) := by
    decide +kernel
  obtain ⟨-, hcycle, hlayout⟩ := hkeeps _ hfetch
  exact ⟨_, hread, by decide, hfetch, by decide +kernel, hcycle, by decide +kernel, hlayout⟩

end Machine

end ByteMachine
