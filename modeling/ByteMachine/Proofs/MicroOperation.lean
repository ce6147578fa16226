import ByteMachine.Proofs.BoundedStack

/-!
# Instructions on the stack, taken apart

The instruction table describes the four instructions on the stack by micro-operations: assignments
made one after the other, each on the machine that the one before it has left. The order shows where
the operand is the stack pointer itself. A push stores the stack pointer as it is after the move,
and a pop moves it up from the value that has been loaded into it.

`Operation.described?` is the machine that is described in this way. A step that executes the
instruction leaves that machine, but for one operand of one instruction: a call takes its target
before it pushes, so a call through the stack pointer goes to where the stack pointer was, one
address behind the one that the table gives (`described?_call`).
-/

namespace ByteMachine

/-- One of the assignments by which the instruction table describes an instruction on the stack. -/
inductive MicroOperation where
  /-- `sp -= 1` -/
  | lowerSp
  /-- `sp += 1` -/
  | raiseSp
  /-- `mem[sp] = reg` -/
  | store (register : UInt8)
  /-- `reg = mem[sp]` -/
  | load (register : UInt8)
  /-- `push pc + 2` -/
  | pushReturn
  /-- `pc = reg` -/
  | goTo (register : UInt8)
  /-- `pc = pop` -/
  | goToPopped
  deriving DecidableEq, Repr

namespace MicroOperation

/-- The machine after a micro-operation, which reads everything as it finds it. The stack pointer
does not wrap, and an address that is pushed has to fit in a byte. -/
def perform? (m : Machine) : MicroOperation → Option Machine
  | lowerSp =>
    if m.sp = 0 then none else some { m with registers := m.registers.withSp (m.sp - 1) }
  | raiseSp =>
    if m.sp = 255 then none else some { m with registers := m.registers.withSp (m.sp + 1) }
  | store r => some { m with memory := m.memory.withCell m.sp (m.reg r) }
  | load r => some { m with registers := m.registers.withReg r (m.cell m.sp) }
  | pushReturn =>
    if m.sp = 0 ∨ 255 < m.pc + 2 then none else some (m.pushed (UInt8.ofNat (m.pc + 2)))
  | goTo r => some { m with pc := (m.reg r).toNat }
  | goToPopped =>
    if m.sp = 255 then none else some { m.popped with pc := (m.cell m.sp).toNat }

/-- The machine after micro-operations one after the other. -/
def inSequence? (m : Machine) (ops : List MicroOperation) : Option Machine := ops.foldlM perform? m

theorem inSequence?_cons {m next : Machine} {op : MicroOperation} (h : op.perform? m = some next)
    (rest : List MicroOperation) : inSequence? m (op :: rest) = inSequence? next rest := by
  rw [inSequence?, List.foldlM_cons, h]
  rfl

end MicroOperation

namespace Operation

open MicroOperation

/-- The micro-operations that the instruction table writes for the instructions on the stack. -/
def microOperations? : Operation → Option (List MicroOperation)
  | push r => some [lowerSp, store r]
  | pop r => some [load r, raiseSp]
  | call r => some [pushReturn, goTo r]
  | ret => some [goToPopped]
  | hlt | ldi .. | prn _ | add .. | mul .. => none

/-- The machine behind an operation whose micro-operations have left a machine. If the operation is
not one to set the program counter, it goes on behind the operation. -/
def behind (o : Operation) (m : Machine) : Machine :=
  { m with
    pc := if o.instruction.setsPc then m.pc else m.pc + o.instruction.width
    state := .running }

/-- The machine that the table describes for an instruction on the stack. -/
def described? (m : Machine) (o : Operation) : Option Machine := do
  let last ← inSequence? m (← o.microOperations?)
  return o.behind last

variable {m : Machine} {o : Operation} {r : UInt8}

/-! ## What the table describes -/

theorem behind_of_setsPc (h : o.instruction.setsPc = true) (m : Machine) :
    o.behind m = { m with state := .running } := by
  rw [behind, if_pos h]

theorem behind_of_not_setsPc (h : ¬ o.instruction.setsPc = true) (m : Machine) :
    o.behind m = { m with pc := m.pc + o.instruction.width, state := .running } := by
  rw [behind, if_neg h]

theorem described?_eq {ops : List MicroOperation} {last : Machine}
    (hops : o.microOperations? = some ops) (hlast : inSequence? m ops = some last) :
    o.described? m = some (o.behind last) := by
  simp [described?, hops, hlast]

/-- A push stores its register as it is when the stack pointer has moved. -/
theorem described?_push (hsp : m.sp ≠ 0) : (push r).described? m = some ((push r).effect m) := by
  have hlower : lowerSp.perform? m = some { m with registers := m.registers.withSp (m.sp - 1) } :=
    if_neg hsp
  have hstore : (store r).perform? { m with registers := m.registers.withSp (m.sp - 1) } =
      some { m with
        registers := m.registers.withSp (m.sp - 1)
        memory := (push r).memoryAfter m } := by
    simp [perform?, Machine.sp, Machine.reg, Registers.reg_withSp]
  have hboth := (inSequence?_cons hlower [store r]).trans (inSequence?_cons hstore [])
  rw [described?_eq rfl hboth, behind_of_not_setsPc (by simp [Instruction.setsPc_iff, instruction])]
  rfl

/-- A pop moves the stack pointer up from where loading the register has left it. -/
theorem described?_pop (hsp : (if r = spIndex then m.cell m.sp else m.sp) ≠ 255) :
    (pop r).described? m = some ((pop r).effect m) := by
  have hmoved : ({ m with registers := m.registers.withReg r (m.cell m.sp) } : Machine).sp =
      if r = spIndex then m.cell m.sp else m.sp := Registers.sp_withReg _ _ _
  have hregisters : (m.registers.withReg r (m.cell m.sp)).withSp
      ((if r = spIndex then m.cell m.sp else m.sp) + 1) = (pop r).registersAfter m := by
    by_cases hr : r = spIndex
    · rw [registersAfter, if_pos hr, if_pos hr, hr, ← Registers.withSp_eq_withReg,
        Registers.withSp_withSp]
    · rw [registersAfter, if_neg hr, if_neg hr]
  have hload : (load r).perform? m =
      some { m with registers := m.registers.withReg r (m.cell m.sp) } := rfl
  have hraise : raiseSp.perform? { m with registers := m.registers.withReg r (m.cell m.sp) } =
      some { m with registers := (pop r).registersAfter m } := by
    rw [perform?, hmoved, if_neg hsp, hregisters]
  have hboth := (inSequence?_cons hload [raiseSp]).trans (inSequence?_cons hraise [])
  rw [described?_eq rfl hboth, behind_of_not_setsPc (by simp [Instruction.setsPc_iff, instruction])]
  rfl

theorem described?_ret (hsp : m.sp ≠ 255) : ret.described? m = some (ret.effect m) := by
  have hpop : goToPopped.perform? m = some { m.popped with pc := (m.cell m.sp).toNat } := if_neg hsp
  rw [described?_eq rfl (inSequence?_cons hpop []), behind_of_setsPc (by decide)]
  rfl

/-- A call reads its target when it has pushed the address behind it. -/
theorem described?_call (hsp : m.sp ≠ 0) (hpc : m.pc + 2 ≤ 255) :
    (call r).described? m = some { (call r).effect m with
      pc := (if r = spIndex then m.sp - 1 else m.reg r).toNat } := by
  have hpush : pushReturn.perform? m = some (m.pushed (UInt8.ofNat (m.pc + 2))) := by
    refine if_neg ?_
    rintro (hzero | hlarge)
    · exact hsp hzero
    · omega
  have hregister : (m.pushed (UInt8.ofNat (m.pc + 2))).reg r =
      if r = spIndex then m.sp - 1 else m.reg r := Registers.reg_withSp _ _ _
  have hboth := (inSequence?_cons hpush [goTo r]).trans (inSequence?_cons rfl [])
  have hjump : (call r).instruction.setsPc = true := Instruction.setsPc_iff.2 (.inl rfl)
  rw [described?_eq rfl hboth, hregister, behind_of_setsPc hjump]
  rfl

end Operation

namespace Machine

variable {m : Machine} {o : Operation}

/-- **The table is read in sequence, save for a call through the stack pointer.** Where a step
executes an instruction on the stack, its micro-operations can all be made, and the step leaves the
machine that they leave, one made after the other, unless the instruction is a call and its operand
is the stack pointer. That call goes one address further, and is otherwise as the table has it. -/
theorem step_follows_table_iff (m : Machine) (o : Operation) (hstack : o.microOperations? ≠ none)
    (h : m.Executes o) :
    ∃ described, o.described? m = some described ∧
      (m.step = ⟨.ok .running, described, []⟩ ↔ o ≠ .call spIndex) ∧
      (o = .call spIndex →
        m.step = ⟨.ok .running, { described with pc := described.pc + 1 }, []⟩) := by
  obtain ⟨hfault, hstep⟩ := h.step_eq
  cases o with
  | hlt | ldi | prn | add | mul => exact absurd rfl hstack
  | push r =>
    have hdescribed := Operation.described?_push (r := r)
      (Operation.fault?_push_eq_none_iff.1 hfault).2
    exact ⟨_, hdescribed, iff_of_true hstep (by simp), by simp⟩
  | pop r =>
    have hdescribed := Operation.described?_pop (Operation.fault?_pop_eq_none_iff.1 hfault).2
    exact ⟨_, hdescribed, iff_of_true hstep (by simp), by simp⟩
  | ret =>
    have hdescribed := Operation.described?_ret (Operation.fault?_ret_eq_none_iff.1 hfault)
    exact ⟨_, hdescribed, iff_of_true hstep (by simp), by simp⟩
  | call r =>
    obtain ⟨-, hpc, hsp⟩ := Operation.fault?_call_eq_none_iff.1 hfault
    have hdescribed := Operation.described?_call (r := r) hsp hpc
    by_cases hr : r = spIndex
    · subst hr
      rw [if_pos rfl] at hdescribed
      have hbelow := toNat_sub_one hsp
      refine ⟨_, hdescribed, iff_of_false ?_ (by simp), fun _ => ?_⟩
      · intro hsame
        have hpc : m.sp.toNat = (m.sp - 1).toNat :=
          congrArg (fun outcome => outcome.machine.pc) (hstep.symm.trans hsame)
        omega
      · rw [hstep, hbelow]
        rfl
    · rw [if_neg hr] at hdescribed
      exact ⟨_, hdescribed, iff_of_true hstep (by simpa using hr), by simp [hr]⟩

/-- A pop of 0x80 into the stack pointer leaves 0x81 there. -/
theorem step_follows_table_iff_of_pop_sp :
    ∃ m described, m = { initial with
        memory := ((Memory.empty.withCell 0 0x46).withCell 1 7).withCell 0xF4 0x80 } ∧
      m.Executes (.pop spIndex) ∧ (Operation.pop spIndex).described? m = some described ∧
      m.step = ⟨.ok .running, described, []⟩ ∧ m.step.machine.sp = 0x81 := by
  obtain ⟨m, hm⟩ : ∃ m, m = { initial with
      memory := ((Memory.empty.withCell 0 0x46).withCell 1 7).withCell 0xF4 0x80 } := ⟨_, rfl⟩
  have hpop : m.Executes (.pop spIndex) := by
    rw [hm]
    exact ⟨by decide +kernel, .running, by decide +kernel⟩
  obtain ⟨described, hdescribed, hiff, -⟩ := step_follows_table_iff m _ (by decide) hpop
  refine ⟨m, described, hm, hpop, hdescribed, hiff.2 (by decide), ?_⟩
  rw [hm]
  decide +kernel

/-- The call pushes its return address to 0xF3 and goes to 0xF4, where the stack pointer was. Read
in sequence, the table has it go to 0xF3, where the stack pointer is. -/
theorem call_through_sp_goes_further :
    ∃ m described, m = loaded [0x50, 7] ∧ m.Executes (.call spIndex) ∧
      (Operation.call spIndex).described? m = some described ∧ described.pc = 0xF3 ∧
      m.step.machine.pc = 0xF4 ∧ m.step.machine ≠ described := by
  have hcall : (loaded [0x50, 7]).Executes (.call spIndex) :=
    ⟨by decide +kernel, .running, by decide +kernel⟩
  have hdescribed := Operation.described?_call (m := loaded [0x50, 7]) (r := spIndex)
    (by decide +kernel) (by decide +kernel)
  refine ⟨_, _, rfl, hcall, hdescribed, by decide +kernel, by decide +kernel, fun hsame => ?_⟩
  have hpc := congrArg Machine.pc hsame
  revert hpc
  decide +kernel

end Machine

end ByteMachine
