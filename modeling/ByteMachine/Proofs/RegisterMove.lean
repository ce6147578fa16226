import ByteMachine.Proofs.StackPrimitives

/-!
# A push and a pop move a register

A push of one register with a pop into another behind it copies the first into the second, by way of
the cell below the stack pointer. That this takes two steps one after the other, and that the pop
finds what the push has stored, needs two things only: the push does not fall on the bytes of the
pop, and it can be made at all.

The stack pointer is one of the registers, and as either operand it has an effect of its own.
Pushed, it is copied as it is after the push (`Machine.pushedBy`). Popped into, it is moved up from
the copy, which is the one way for the pop to fail; and pushed and popped at once, it comes back to
where it was.
-/

namespace ByteMachine

namespace Machine

/-- What a push of a register stores. -/
def pushedBy (m : Machine) (r : UInt8) : UInt8 := if r = spIndex then m.sp - 1 else m.reg r

/-- The machine behind a push and a pop. The value that has been moved stays in the cell below the
stack pointer, and the program counter, the execution state and the registers may have changed, but
nothing else has. -/
def behindMove (m : Machine) (value : UInt8) (registers : Registers) : Machine :=
  { m with
    pc := m.pc + 4
    state := .running
    registers := registers
    memory := m.memory.withCell (m.sp - 1) value }

variable {m : Machine} {a b : UInt8}

/-! ## The push -/

theorem step_push (ho : m.PointsAt (.push a)) (ha : a < 8) (hsp : m.sp ≠ 0) :
    m.step = ⟨.ok .running, (Operation.push a).effect m, []⟩ :=
  ho.step_eq (Operation.fault?_push_eq_none_iff.2 ⟨ha, hsp⟩)

theorem sp_effect_push : ((Operation.push a).effect m).sp = m.sp - 1 := Registers.sp_withSp _ _

/-- What is pushed is found at the stack pointer. -/
theorem cell_effect_push :
    ((Operation.push a).effect m).cell ((Operation.push a).effect m).sp = m.pushedBy a := by
  rw [sp_effect_push]
  exact Memory.cell_withCell_self _ _ _

/-- A pop behind a push is still there after the push, if the push does not fall on it. -/
theorem pointsAt_pop_of_spells
    (hcode : m.memory.Spells m.pc ((Operation.push a).encode ++ (Operation.pop b).encode))
    (hopcode : (m.sp - 1).toNat ≠ m.pc + 2) (hoperand : (m.sp - 1).toNat ≠ m.pc + 3) :
    ((Operation.push a).effect m).PointsAt (.pop b) := by
  have hpop : m.memory.Spells (m.pc + 2) (Operation.pop b).encode :=
    (Memory.spells_append.1 hcode).2
  refine hpop.withCell (fun i hi => ?_) _
  have hlength : (Operation.pop b).encode.length = 2 := rfl
  omega

/-! ## The pop -/

/-- A pop into another register moves the stack pointer back to where it was. -/
theorem step_pop_of_ne (hpop : ((Operation.push a).effect m).PointsAt (.pop b)) (hb : b < 8)
    (hne : b ≠ spIndex) (hsp : m.sp ≠ 0) :
    ((Operation.push a).effect m).step = ⟨.ok .running,
      m.behindMove (m.pushedBy a) (m.registers.withReg b (m.pushedBy a)), []⟩ := by
  have hfault : (Operation.pop b).fault? ((Operation.push a).effect m) = none := by
    rw [Operation.fault?_pop_eq_none_iff, if_neg hne, sp_effect_push]
    exact ⟨hb, by grind⟩
  have hback : (m.registers.withReg b (m.pushedBy a)).withSp m.sp =
      m.registers.withReg b (m.pushedBy a) := by
    have hsame : (m.registers.withReg b (m.pushedBy a)).sp = m.sp := by
      rw [Registers.sp_withReg, if_neg hne, sp]
    rw [← hsame, Registers.withSp_sp]
  have hregisters : (Operation.pop b).registersAfter ((Operation.push a).effect m) =
      m.registers.withReg b (m.pushedBy a) := by
    rw [Operation.registersAfter, if_neg hne, cell_effect_push, sp_effect_push,
      UInt8.sub_add_cancel]
    show ((m.registers.withSp (m.sp - 1)).withReg b (m.pushedBy a)).withSp m.sp = _
    rw [Registers.withReg_withSp_comm _ _ _ hb hne, Registers.withSp_withSp, hback]
  rw [hpop.step_eq hfault, Operation.effect, hregisters]
  rfl

/-- A pop into the stack pointer moves it up from the value that was pushed. -/
theorem step_pop_sp (hpop : ((Operation.push a).effect m).PointsAt (.pop spIndex))
    (hvalue : m.pushedBy a ≠ 255) :
    ((Operation.push a).effect m).step = ⟨.ok .running,
      m.behindMove (m.pushedBy a) (m.registers.withSp (m.pushedBy a + 1)), []⟩ := by
  have hfault : (Operation.pop spIndex).fault? ((Operation.push a).effect m) = none := by
    rw [Operation.fault?_pop_eq_none_iff, if_pos rfl, cell_effect_push]
    exact ⟨by decide, hvalue⟩
  have hregisters : (Operation.pop spIndex).registersAfter ((Operation.push a).effect m) =
      m.registers.withSp (m.pushedBy a + 1) := by
    rw [Operation.registersAfter, if_pos rfl, cell_effect_push]
    exact Registers.withSp_withSp _ _ _
  rw [hpop.step_eq hfault, Operation.effect, hregisters]
  rfl

/-- The stack pointer cannot be moved up from 255. -/
theorem step_pop_sp_of_last (hpop : ((Operation.push a).effect m).PointsAt (.pop spIndex))
    (hvalue : m.pushedBy a = 255) :
    ((Operation.push a).effect m).step = ⟨.error (.stackUnderflow 255),
      { (Operation.push a).effect m with state := .faulted }, []⟩ := by
  have hfault : (Operation.pop spIndex).fault? ((Operation.push a).effect m) =
      some (.stackUnderflow 255) := by
    simp only [Operation.fault?, Operation.stackFault?, if_pos, cell_effect_push, hvalue]
    rfl
  rw [step_of_pointsAt hpop, hfault]

/-! ## Both -/

/-- **A push and a pop behind it move a register.** Let a push stand at the program counter and a
pop behind it, and let there be room for the push in a cell beside the bytes of the pop. The push
succeeds. If the pop is not into the stack pointer, it succeeds too: together they go on behind the
pop, store the moved value in the register and in the cell below the stack pointer, and change
nothing else, so the stack pointer is where it was. Pushed and popped itself, the stack pointer is
where it was as well. Another register that is popped into the stack pointer leaves it one above its
value; if there is no such address, the pop fails, and the stack pointer stays one below where it
was. -/
theorem push_pop_moves (m : Machine) (a b : UInt8) (ha : a < 8) (hb : b < 8)
    (hcode : m.memory.Spells m.pc ((Operation.push a).encode ++ (Operation.pop b).encode))
    (hsp : 1 ≤ m.sp) (hopcode : (m.sp - 1).toNat ≠ m.pc + 2)
    (hoperand : (m.sp - 1).toNat ≠ m.pc + 3) :
    m.step.result = .ok .running ∧
    (b ≠ spIndex →
      m.step.machine.step = ⟨.ok .running,
        m.behindMove (m.pushedBy a) (m.registers.withReg b (m.pushedBy a)), []⟩ ∧
      m.step.machine.step.machine.sp = m.sp) ∧
    (a = spIndex → b = spIndex →
      m.step.machine.step = ⟨.ok .running, m.behindMove (m.sp - 1) m.registers, []⟩) ∧
    (a ≠ spIndex → b = spIndex → m.reg a < 255 →
      m.step.machine.step = ⟨.ok .running,
        m.behindMove (m.reg a) (m.registers.withSp (m.reg a + 1)), []⟩) ∧
    (a ≠ spIndex → b = spIndex → ¬ m.reg a < 255 →
      m.step.machine.step.result = .error (.stackUnderflow 255) ∧
      m.step.machine.step.machine.sp = m.sp - 1) := by
  have hne : m.sp ≠ 0 := by grind
  have hpush := step_push (Memory.spells_append.1 hcode).1 ha hne
  have hpop := pointsAt_pop_of_spells hcode hopcode hoperand
  rw [hpush]
  refine ⟨rfl, fun hr => ?_, ?_, ?_, ?_⟩
  · have hstep := step_pop_of_ne hpop hb hr hne
    refine ⟨hstep, ?_⟩
    show ((Operation.push a).effect m).step.machine.sp = m.sp
    rw [hstep]
    exact (Registers.sp_withReg _ _ _).trans (if_neg hr)
  · rintro rfl rfl
    have hvalue : m.pushedBy spIndex = m.sp - 1 := if_pos rfl
    have hstep := step_pop_sp hpop (by rw [hvalue]; grind)
    rw [hvalue, UInt8.sub_add_cancel] at hstep
    rw [hstep, sp, Registers.withSp_sp]
  · rintro hr rfl hlt
    have hvalue : m.pushedBy a = m.reg a := if_neg hr
    have hstep := step_pop_sp hpop (by rw [hvalue]; grind)
    rwa [hvalue] at hstep
  · rintro hr rfl hlast
    have hvalue : m.pushedBy a = 255 := (if_neg hr).trans (by grind)
    show ((Operation.push a).effect m).step.result = _ ∧ _
    have hstep := step_pop_sp_of_last hpop hvalue
    rw [hstep]
    exact ⟨rfl, Registers.sp_withSp _ _⟩

/-- With the stack pointer at 2, the push falls on its own operand, which has done its work by then:
register 3 gets the 9 of register 1. -/
theorem push_pop_moves_of_overwrite :
    ∃ m : Machine, m = { initial with
        registers := (Registers.empty.withReg 1 9).withSp 2
        memory := (loaded [0x45, 1, 0x46, 3]).memory } ∧
      m.memory.Spells m.pc ((Operation.push 1).encode ++ (Operation.pop 3).encode) ∧ 1 ≤ m.sp ∧
      (m.sp - 1).toNat ≠ m.pc + 2 ∧ (m.sp - 1).toNat ≠ m.pc + 3 ∧
      m.step.machine.step = ⟨.ok .running, m.behindMove 9 (m.registers.withReg 3 9), []⟩ ∧
      m.step.machine.step.machine.sp = 2 ∧ m.step.machine.step.machine.cell 1 = 9 := by
  obtain ⟨m, hm⟩ : ∃ m : Machine, m = { initial with
      registers := (Registers.empty.withReg 1 9).withSp 2
      memory := (loaded [0x45, 1, 0x46, 3]).memory } := ⟨_, rfl⟩
  have hplace : m.memory.Spells m.pc ((Operation.push 1).encode ++ (Operation.pop 3).encode) ∧
      1 ≤ m.sp ∧ (m.sp - 1).toNat ≠ m.pc + 2 ∧ (m.sp - 1).toNat ≠ m.pc + 3 := by
    rw [hm]
    decide +kernel
  have hvalue : m.sp = 2 ∧ m.pushedBy 1 = 9 := by
    rw [hm]
    decide +kernel
  obtain ⟨hcode, hsp, hopcode, hoperand⟩ := hplace
  have hmoves := push_pop_moves m 1 3 (by decide) (by decide) hcode hsp hopcode hoperand
  obtain ⟨hboth, hback⟩ := hmoves.2.1 (by decide)
  rw [hvalue.2] at hboth
  refine ⟨m, hm, hcode, hsp, hopcode, hoperand, hboth, hback.trans hvalue.1, ?_⟩
  rw [hboth, hm]
  decide +kernel

end Machine

end ByteMachine
