import ByteMachine.Proofs.BoundedStack

/-!
# Instructions on the stack and the primitives of the stack

A push and a pop can be asked of a machine from outside, and four instructions do the same from
inside. Two of them, a call and a return, are written with the primitives. A push and a pop of a
register are not: they move the stack pointer and write the memory and the register in an order of
their own, and check other things first.

All four come to the same as the primitives (`Outcome.stepTo` is the step that a primitive would
make), for every machine whether or not the primitive succeeds. What has to be shown of the push is
that the register is read as it should be although the stack pointer has moved already, and of the
pop that its two writes to the registers can be exchanged. Both are so unless the register is the
stack pointer; a push of the stack pointer pushes it as it is after the move (`step_push_eq`).
-/

namespace ByteMachine

/-- The step that comes to the same as a computation on a machine. It runs on at an address that
depends on the value of the computation, and it faults where the computation does. -/
def Outcome.stepTo {α : Type} (outcome : Outcome α) (next : α → Nat) : Outcome State where
  result := outcome.result.map fun _ => .running
  machine :=
    match outcome.result with
    | .ok value => { outcome.machine with pc := next value, state := .running }
    | .error _ => { outcome.machine with state := .faulted }
  printed := outcome.printed

namespace Operation

variable {m : Machine} {r : UInt8}

/-! ## What stands in the way of an operation on the stack

With its operand in order, such an operation is kept by the same check as a primitive. -/

theorem fault?_push_of_lt (hr : r < 8) : (push r).fault? m = overflow? m.sp := by
  simp [fault?, registerFault?, hr]

theorem fault?_pop_of_lt (hr : r < 8) (hne : r ≠ spIndex) :
    (pop r).fault? m = underflow? m.sp := by
  simp [fault?, registerFault?, hr, hne]

theorem fault?_call_of_lt (hr : r < 8) (hpc : m.pc ≤ 253) :
    (call r).fault? m = overflow? m.sp := by
  have hreturn : m.pc + 2 ≤ 255 := by omega
  simp [fault?, registerFault?, returnFault?, hr, hreturn]

end Operation

namespace Machine

variable {m : Machine} {r : UInt8}

/-! ## A pop and the write behind it -/

/-- Writing the popped value to a register does not fail if there is such a register. -/
theorem apply_pop_writeRegister (m : Machine) (hr : r < 8) :
    (Exec.pop >>= Exec.writeRegister r).apply m = match Operation.underflow? m.sp with
      | some fault => ⟨.error fault, m, []⟩
      | none =>
        ⟨.ok (),
          { m.popped with registers := m.popped.registers.withReg r (m.cell m.sp) }, []⟩ := by
  by_cases h : m.registers.sp = 255
  · simp [Exec.apply, Exec.pop_apply, Operation.underflow?, sp, h]
  · simp [Exec.apply, Exec.pop_apply, Exec.writeRegister_apply, Operation.underflow?, popped, sp,
      cell, h, hr]

/-! ## The instructions -/

/-- A push of a register pushes its value, and a push of the stack pointer what it has become. -/
theorem step_push_eq (ho : m.PointsAt (.push r)) (hr : r < 8) :
    m.step = ((Exec.push (if r = spIndex then m.sp - 1 else m.reg r)).apply m).stepTo
      fun _ => m.pc + 2 := by
  rw [step_of_pointsAt ho, Operation.fault?_push_of_lt hr, apply_push]
  cases Operation.overflow? m.sp with
  | some fault => rfl
  | none => rfl

/-- A pop into a register other than the stack pointer writes the popped value to it. -/
theorem step_pop_eq (ho : m.PointsAt (.pop r)) (hr : r < 8) (hne : r ≠ spIndex) :
    m.step = ((Exec.pop >>= Exec.writeRegister r).apply m).stepTo fun _ => m.pc + 2 := by
  rw [step_of_pointsAt ho, Operation.fault?_pop_of_lt hr hne, apply_pop_writeRegister m hr]
  cases Operation.underflow? m.sp with
  | some fault => rfl
  | none =>
    have hregisters : (Operation.pop r).registersAfter m =
        m.popped.registers.withReg r (m.cell m.sp) := by
      rw [Operation.registersAfter, if_neg hne]
      exact (Registers.withReg_withSp_comm _ _ _ hr hne).symm
    simp only [Operation.effect, hregisters]
    rfl

/-- A call pushes the address behind it. -/
theorem step_call_eq (ho : m.PointsAt (.call r)) (hr : r < 8) (hpc : m.pc ≤ 253) :
    m.step = ((Exec.push (UInt8.ofNat (m.pc + 2))).apply m).stepTo fun _ => (m.reg r).toNat := by
  rw [step_of_pointsAt ho, Operation.fault?_call_of_lt hr hpc, apply_push]
  cases Operation.overflow? m.sp with
  | some fault => rfl
  | none => rfl

/-- A return goes to the address that it pops. -/
theorem step_ret_eq (ho : m.PointsAt .ret) : m.step = (Exec.pop.apply m).stepTo UInt8.toNat := by
  rw [step_of_pointsAt ho, apply_pop]
  show (match Operation.underflow? m.sp with | some fault => _ | none => _) = _
  cases Operation.underflow? m.sp with
  | some fault => rfl
  | none => rfl

/-- **The instructions of the stack do what its primitives do.** Where the program counter stands
at a push, a pop, a call or a return, the step is the one that the primitive makes: the registers
and the memory are as the primitive leaves them, the step fails where the primitive fails and with
its fault, and it goes on behind the instruction, at the value of the register, or at the popped
address. The pushed and the popped register are not the stack pointer. -/
theorem stack_step_eq_primitive (m : Machine) :
    (∀ r, m.PointsAt (.push r) → r < 8 → r ≠ spIndex →
      m.step = ((Exec.push (m.reg r)).apply m).stepTo fun _ => m.pc + 2) ∧
    (∀ r, m.PointsAt (.pop r) → r < 8 → r ≠ spIndex →
      m.step = ((Exec.pop >>= Exec.writeRegister r).apply m).stepTo fun _ => m.pc + 2) ∧
    (∀ r, m.PointsAt (.call r) → r < 8 → m.pc ≤ 253 →
      m.step = ((Exec.push (UInt8.ofNat (m.pc + 2))).apply m).stepTo fun _ => (m.reg r).toNat) ∧
    (m.PointsAt .ret → m.step = (Exec.pop.apply m).stepTo UInt8.toNat) := by
  refine ⟨fun r ho hr hne => ?_, fun r => step_pop_eq, fun r => step_call_eq, step_ret_eq⟩
  have hstep := step_push_eq ho hr
  rwa [if_neg hne] at hstep

/-- A pop into register 3 of the 9 that stands on the stack. -/
theorem stack_step_eq_primitive_of_pop :
    ∃ m : Machine, m.PointsAt (.pop 3) ∧
      m.step = ((Exec.pop >>= Exec.writeRegister 3).apply m).stepTo (fun _ => 2) ∧
      m.step.machine.reg 3 = 9 ∧ m.step.machine.sp = 0xF5 := by
  have ho : PointsAt { initial with
      memory := ((Memory.empty.withCell 0 0x46).withCell 1 3).withCell 0xF4 9 } (.pop 3) := by
    decide +kernel
  refine ⟨_, ho, ?_, by decide +kernel, by decide +kernel⟩
  exact (stack_step_eq_primitive _).2.1 3 ho (by decide) (by decide)

end Machine

end ByteMachine
