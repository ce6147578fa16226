import ByteMachine.Proofs.Computation
import ByteMachine.Proofs.Placement

/-!
# What an instruction does

The instruction table, written as functions of the machine that an operation finds: what the program
counter, the execution state, the registers and the memory are afterwards, and what is printed. Each
function has one row for every operation that changes its part of the machine, and the rest are the
frame: whatever a function passes through is what the operation leaves alone. Every row reads the
machine as it was before the operation, so the rows also say what happens when operands coincide,
when an operand is the stack pointer, and when a write lands on the program itself.

`Operation.fault?` says when an operation cannot be executed. `Exec.execute_apply` joins the two to
the way the machine executes: an operation either fails before it has changed anything or it has its
effect. Everything about a step is then in `step_of_fetch_error` and `step_of_pointsAt`, and later
proofs use those (or the inversions `step_eq_of_ok`, `step_eq_of_error` and, where it is known what
is executed, `Executes.step_eq`) and never execute an operation again.
-/

namespace ByteMachine

namespace Operation

/-! ## The instruction table -/

/-- The execution state after an operation. -/
@[simp] def stateAfter : Operation → State
  | .hlt => .halted
  | .ldi .. | .prn _ | .add .. | .mul .. | .push _ | .pop _ | .call _ | .ret => .running

/-- The program counter after an operation. -/
@[simp] def pcAfter (m : Machine) : Operation → Nat
  | .hlt => m.pc
  | .ldi .. | .add .. | .mul .. => m.pc + 3
  | .prn _ | .push _ | .pop _ => m.pc + 2
  | .call r => (m.reg r).toNat
  | .ret => (m.cell m.sp).toNat

/-- The registers after an operation. Arithmetic is on natural numbers and reduced to a byte at the
end. A pop into the stack pointer moves up from the value it loaded. -/
@[simp] def registersAfter (m : Machine) : Operation → Registers
  | .hlt | .prn _ => m.registers
  | .ldi r value => m.registers.withReg r value
  | .add a b => m.registers.withReg a (UInt8.ofNat ((m.reg a).toNat + (m.reg b).toNat))
  | .mul a b => m.registers.withReg a (UInt8.ofNat ((m.reg a).toNat * (m.reg b).toNat))
  | .push _ | .call _ => m.registers.withSp (m.sp - 1)
  | .pop r =>
    if r = spIndex then m.registers.withSp (m.cell m.sp + 1)
    else (m.registers.withReg r (m.cell m.sp)).withSp (m.sp + 1)
  | .ret => m.registers.withSp (m.sp + 1)

/-- The memory after an operation. A push of the stack pointer stores it as it is after the move. -/
@[simp] def memoryAfter (m : Machine) : Operation → Memory
  | .push r => m.memory.withCell (m.sp - 1) (if r = spIndex then m.sp - 1 else m.reg r)
  | .call _ => m.memory.withCell (m.sp - 1) (UInt8.ofNat (m.pc + 2))
  | .hlt | .ldi .. | .prn _ | .add .. | .mul .. | .pop _ | .ret => m.memory

/-- The values that an operation prints. -/
@[simp] def emits (m : Machine) : Operation → List UInt8
  | .prn r => [m.reg r]
  | .hlt | .ldi .. | .add .. | .mul .. | .push _ | .pop _ | .call _ | .ret => []

/-- The machine after an operation. -/
def effect (m : Machine) (o : Operation) : Machine where
  pc := o.pcAfter m
  state := o.stateAfter
  registers := o.registersAfter m
  memory := o.memoryAfter m

/-! ## What can stand in the way -/

/-- The operand bytes that name registers, in order. -/
@[simp] def registerOperands : Operation → List UInt8
  | .hlt | .ret => []
  | .ldi r _ | .prn r | .push r | .pop r | .call r => [r]
  | .add a b | .mul a b => [a, b]

/-- They are the operands that the instruction set marks as registers, in the order of their bytes;
the immediate of a load is none of them. -/
theorem registerOperands_eq (o : Operation) :
    o.registerOperands =
      ((o.instruction.operands.zip o.operands).filter (·.1.kind = .register)).map (·.2) := by
  cases o <;> rfl

/-- The fault of an operand that names no register. -/
def registerFault? (index : UInt8) : Option Fault :=
  if index < 8 then none else some (.invalidRegister index registerCount)

/-- The fault of a return address that does not fit in a byte. -/
def returnFault? (pc : Nat) : Option Fault :=
  if pc + 2 ≤ 255 then none else some (.addressOutOfBounds (pc + 2) memorySize)

/-- The fault of a stack pointer that cannot move down. -/
def overflow? (sp : UInt8) : Option Fault := if sp = 0 then some (.stackOverflow 0) else none

/-- The fault of a stack pointer that cannot move up. -/
def underflow? (sp : UInt8) : Option Fault := if sp = 255 then some (.stackUnderflow 255) else none

/-- The fault of an operation on the stack whose operands are in order. -/
@[simp] def stackFault? (m : Machine) : Operation → Option Fault
  | .push _ => overflow? m.sp
  | .pop r => underflow? (if r = spIndex then m.cell m.sp else m.sp)
  | .call _ => (returnFault? m.pc).or (overflow? m.sp)
  | .ret => underflow? m.sp
  | .hlt | .ldi .. | .prn _ | .add .. | .mul .. => none

/-- The fault of an operation, if it has one. -/
def fault? (m : Machine) (o : Operation) : Option Fault :=
  (o.registerOperands.findSome? registerFault?).or (o.stackFault? m)

/-- Where nothing stands in the way of an operation, its register operands name registers. -/
theorem lt_of_fault?_eq_none {m : Machine} {o : Operation} (h : o.fault? m = none) {r : UInt8}
    (hr : r ∈ o.registerOperands) : r < 8 := by
  obtain ⟨hregisters, -⟩ := Option.or_eq_none_iff.1 h
  have hfault := List.findSome?_eq_none_iff.1 hregisters r hr
  simpa [registerFault?] using hfault

theorem fault?_push_eq_none_iff {m : Machine} {r : UInt8} :
    (push r).fault? m = none ↔ r < 8 ∧ m.sp ≠ 0 := by
  simp [fault?, registerFault?, overflow?]

theorem fault?_pop_eq_none_iff {m : Machine} {r : UInt8} :
    (pop r).fault? m = none ↔ r < 8 ∧ (if r = spIndex then m.cell m.sp else m.sp) ≠ 255 := by
  simp [fault?, registerFault?, underflow?]

theorem fault?_call_eq_none_iff {m : Machine} {r : UInt8} :
    (call r).fault? m = none ↔ r < 8 ∧ m.pc + 2 ≤ 255 ∧ m.sp ≠ 0 := by
  simp [fault?, registerFault?, returnFault?, overflow?]

theorem fault?_ret_eq_none_iff {m : Machine} : ret.fault? m = none ↔ m.sp ≠ 255 := by
  simp [fault?, underflow?]

/-- Where execution goes on after an operation. -/
@[simp] def flow (m : Machine) : Operation → Flow
  | .hlt => .halt
  | .call r => .jump (m.reg r).toNat
  | .ret => .jump (m.cell m.sp).toNat
  | .ldi .. | .prn _ | .add .. | .mul .. | .push _ | .pop _ => .next

end Operation

namespace Exec

open Operation

/-- The return address of a call is checked before anything is pushed. -/
theorem returnAddress_apply (e : Execution) :
    returnAddress e =
      if e.pc + 2 ≤ 255 then .ok (UInt8.ofNat (e.pc + 2)) e
      else .error (.addressOutOfBounds (e.pc + 2) memorySize) e := by
  have hwidth : Instruction.call.width = 2 := rfl
  simp only [returnAddress, bind_apply, get_apply, hwidth]
  split <;> rfl

/-- Executing an operation either fails before anything is changed, or it has the effect that the
table gives it. -/
theorem execute_apply (o : Operation) (e : Execution) :
    execute o e = match o.fault? e.toMachine with
      | some fault => .error fault e
      | none => .ok (o.flow e.toMachine) { e with
          registers := o.registersAfter e.toMachine
          memory := o.memoryAfter e.toMachine
          printed := e.printed ++ o.emits e.toMachine } := by
  rw [execute]
  cases o with
  | hlt => simp [executeWith, fault?]
  | ldi r value =>
    by_cases h : r < 8 <;> simp [executeWith, writeRegister_apply, fault?, registerFault?, h]
  | prn r =>
    by_cases h : r < 8 <;>
      simp [executeWith, readRegister_apply, fault?, registerFault?, Machine.reg, h]
  | add a b =>
    by_cases ha : a < 8 <;> by_cases hb : b < 8 <;>
      simp [executeWith, alu_apply (i := .add) rfl, fault?, registerFault?, Machine.reg, ha, hb]
  | mul a b =>
    by_cases ha : a < 8 <;> by_cases hb : b < 8 <;>
      simp [executeWith, alu_apply (i := .mul) rfl, fault?, registerFault?, Machine.reg, ha, hb]
  | push r =>
    by_cases h : r < 8 <;> by_cases hs : e.registers.sp = 0 <;>
      simp [executeWith, readRegister_apply, below_apply, writeByte_toNat, Registers.reg_withSp,
        fault?, registerFault?, overflow?, Machine.reg, Machine.sp, h, hs]
  | pop r =>
    by_cases h : r < 8
    · by_cases hr : r = spIndex
      · subst hr
        by_cases hv : e.memory.cell e.registers.sp = 255 <;>
          simp [executeWith, readRegister_apply, readByte_toNat, above_apply, writeRegister_apply,
            ← Registers.withSp_eq_withReg, fault?, registerFault?, underflow?, Machine.cell,
            Machine.sp, h, hv]
      · by_cases hs : e.registers.sp = 255
        · -- The byte is read before `hs` is used, which would rewrite its address as well.
          simp only [executeWith, bind_apply, readRegister_apply, h, if_true, sp_apply,
            readByte_toNat, hr, if_false, above_apply, hs]
          simp [fault?, registerFault?, underflow?, Machine.sp, h, hr, hs]
        · simp [executeWith, readRegister_apply, readByte_toNat, above_apply, writeRegister_apply,
            fault?, registerFault?, underflow?, Machine.cell, Machine.sp, h, hr, hs]
    · simp [executeWith, readRegister_apply, fault?, registerFault?, h]
  | call r =>
    by_cases h : r < 8 <;> by_cases hp : e.pc + 2 ≤ 255 <;> by_cases hs : e.registers.sp = 0 <;>
      simp only [executeWith, bind_apply, readRegister_apply, h, if_true, if_false,
        returnAddress_apply, push_apply, pure_apply, hp, hs] <;>
      simp [fault?, registerFault?, returnFault?, overflow?, Machine.reg, Machine.sp, h, hp, hs]
  | ret =>
    by_cases h : e.registers.sp = 255 <;>
      simp [executeWith, pop_apply, fault?, underflow?, Machine.cell, Machine.sp, h]

/-- Moving on from an operation completes its effect. -/
theorem proceed_apply (o : Operation) (m : Machine) (e : Execution) (hpc : e.pc = m.pc)
    (hstate : e.state = .running) :
    proceed o (o.flow m) e = .ok () { e with pc := o.pcAfter m, state := o.stateAfter } := by
  cases o <;> simp [proceed, Operation.instruction, Instruction.width, Instruction.operands, hpc,
    ← hstate]

/-- A cycle that cannot fetch changes nothing. -/
theorem cycle_of_fetch_error {e : Execution} {fault : Fault}
    (h : e.toMachine.fetch = .error fault) : cycle e = .error fault e := by
  simp [cycle, h]

/-- A cycle executes the operation that it fetches. -/
theorem cycle_of_fetch_ok {e : Execution} {o : Operation} (h : e.toMachine.fetch = .ok o)
    (hstate : e.state = .running) :
    cycle e = match o.fault? e.toMachine with
      | some fault => .error fault e
      | none => .ok () ⟨o.effect e.toMachine, e.printed ++ o.emits e.toMachine⟩ := by
  simp only [cycle, bind_apply, get_apply, h, ofExcept_ok, pure_apply, execute_apply]
  cases o.fault? e.toMachine with
  | some fault => rfl
  | none => exact proceed_apply o e.toMachine _ rfl hstate

end Exec

namespace Machine

/-! ## Steps -/

/-- A machine that cannot fetch faults and changes nothing else. -/
theorem step_of_fetch_error {m : Machine} {fault : Fault} (h : m.fetch = .error fault) :
    m.step = ⟨.error fault, { m with state := .faulted }, []⟩ := by
  have hcycle := Exec.cycle_of_fetch_error (e := ⟨{ m with state := .running }, []⟩) h
  simp only [step, Exec.apply, hcycle]

/-- A machine that points at an operation either faults and changes nothing else, or the operation
has its effect. -/
theorem step_of_pointsAt {m : Machine} {o : Operation} (h : m.PointsAt o) :
    m.step = match o.fault? m with
      | some fault => ⟨.error fault, { m with state := .faulted }, []⟩
      | none => ⟨.ok o.stateAfter, o.effect m, o.emits m⟩ := by
  -- No operation looks at the execution state, so it is the same to start the machine first.
  have hfault : o.fault? { m with state := .running } = o.fault? m := by cases o <;> rfl
  have heffect : o.effect { m with state := .running } = o.effect m := by cases o <;> rfl
  have hemits : o.emits { m with state := .running } = o.emits m := by cases o <;> rfl
  have hcycle := Exec.cycle_of_fetch_ok (e := ⟨{ m with state := .running }, []⟩)
    (fetch_of_pointsAt h) rfl
  simp only [hfault, heffect, hemits] at hcycle
  simp only [step, Exec.apply, hcycle]
  cases o.fault? m <;> rfl

/-- There are two kinds of step. Either the machine points at an operation that nothing stands in
the way of, and the step is its effect; or the step fails, the machine is as it was but faulted, and
nothing is printed. -/
theorem step_cases (m : Machine) :
    (∃ o, m.PointsAt o ∧ o.fault? m = none ∧ m.step = ⟨.ok o.stateAfter, o.effect m, o.emits m⟩) ∨
    ∃ fault, m.step = ⟨.error fault, { m with state := .faulted }, []⟩ := by
  rcases fetch_cases m with ⟨o, ho, -⟩ | ⟨_, hf⟩ | ⟨_, _, _, hf⟩ | ⟨_, _, _, hf⟩
  · have hstep := step_of_pointsAt ho
    cases hfault : o.fault? m with
    | none => exact .inl ⟨o, ho, hfault, by rw [hstep, hfault]⟩
    | some fault => exact .inr ⟨fault, by rw [hstep, hfault]⟩
  all_goals exact .inr ⟨_, step_of_fetch_error hf⟩

theorem step_eq_of_ok {m : Machine} {s : State} (h : m.step.result = .ok s) :
    ∃ o, m.PointsAt o ∧ o.fault? m = none ∧ m.step = ⟨.ok o.stateAfter, o.effect m, o.emits m⟩ := by
  rcases step_cases m with hok | ⟨fault, hstep⟩
  · exact hok
  · rw [hstep] at h
    cases h

/-- An operation that nothing stands in the way of has its effect. -/
theorem PointsAt.step_eq {m : Machine} {o : Operation} (ho : m.PointsAt o)
    (hfault : o.fault? m = none) : m.step = ⟨.ok o.stateAfter, o.effect m, o.emits m⟩ := by
  rw [step_of_pointsAt ho, hfault]

/-- Where a step succeeds, nothing stands in the way of the operation. -/
theorem PointsAt.step_eq_of_ok {m : Machine} {o : Operation} {s : State} (ho : m.PointsAt o)
    (h : m.step.result = .ok s) :
    o.fault? m = none ∧ m.step = ⟨.ok o.stateAfter, o.effect m, o.emits m⟩ := by
  obtain ⟨p, hp, hfault, hstep⟩ := Machine.step_eq_of_ok h
  obtain rfl := ho.unique hp
  exact ⟨hfault, hstep⟩

/-- The next step executes an operation: the program counter stands at it, and the step succeeds. -/
def Executes (m : Machine) (o : Operation) : Prop := m.PointsAt o ∧ ∃ s, m.step.result = .ok s

theorem Executes.step_eq {m : Machine} {o : Operation} (h : m.Executes o) :
    o.fault? m = none ∧ m.step = ⟨.ok o.stateAfter, o.effect m, o.emits m⟩ := by
  obtain ⟨ho, s, hs⟩ := h
  exact ho.step_eq_of_ok hs

/-- A step that succeeds has executed something. -/
theorem exists_executes {m : Machine} {s : State} (h : m.step.result = .ok s) :
    ∃ o, m.Executes o := by
  obtain ⟨o, ho, -, -⟩ := step_eq_of_ok h
  exact ⟨o, ho, s, h⟩

theorem step_eq_of_error {m : Machine} {fault : Fault} (h : m.step.result = .error fault) :
    m.step = ⟨.error fault, { m with state := .faulted }, []⟩ := by
  rcases step_cases m with ⟨o, _, _, hstep⟩ | ⟨g, hstep⟩
  · rw [hstep] at h
    cases h
  · rw [hstep] at h ⊢
    rw [Except.error.inj h]

/-- **A step is a row of the instruction table.** Where a step succeeds, the program counter stands
at the bytes of an operation, nothing that the operation computes leaves its range, and the machine
afterwards, the values printed and the state returned are exactly those of the table. -/
theorem step_eq_effect (m : Machine) (s : State) (h : m.step.result = .ok s) :
    ∃ o, m.PointsAt o ∧ o.fault? m = none ∧
      m.step.machine = o.effect m ∧ m.step.printed = o.emits m ∧ s = o.stateAfter := by
  obtain ⟨o, ho, hfault, hstep⟩ := step_eq_of_ok h
  have hs : s = o.stateAfter := by
    rw [hstep] at h
    exact (Except.ok.inj h).symm
  exact ⟨o, ho, hfault, by rw [hstep], by rw [hstep], hs⟩

/-- The initial machine with bytes loaded. -/
def loaded (bytes : List UInt8) : Machine := ((Exec.load bytes).apply initial).machine

/-- Pushing the stack pointer over the operand of the push itself: after `LDI R7,5`, the push at 3
stores 4 in its own second byte. -/
theorem step_eq_effect_of_push_sp :
    ∃ m, m = (loaded [0x82, 7, 5, 0x45, 7]).step.machine ∧ m.step.result = .ok .running ∧
      m.step.machine = (Operation.push 7).effect m ∧ m.cell 4 = 7 ∧ m.step.machine.cell 4 = 4 := by
  have hresult : (loaded [0x82, 7, 5, 0x45, 7]).step.machine.step.result = .ok .running := by
    decide +kernel
  have hpush : (loaded [0x82, 7, 5, 0x45, 7]).step.machine.PointsAt (.push 7) := by
    decide +kernel
  obtain ⟨o, ho, -, hmachine, -, -⟩ := step_eq_effect _ _ hresult
  obtain rfl := ho.unique hpush
  exact ⟨_, rfl, hresult, hmachine, by decide +kernel, by decide +kernel⟩

end Machine

end ByteMachine
