import ByteMachine.Proofs.Contents

/-!
# Computations, evaluated

A computation on a machine at work is a function of the execution it starts from. The lemmas here
say what that function is, first for the ways to put computations together and then for the
accesses, the stack and the arithmetic unit. Later proofs rewrite with them and never open the monad
again.
-/

namespace ByteMachine

namespace Exec

variable {α β : Type}

/-! ## Putting computations together -/

@[simp] theorem pure_apply (value : α) (e : Execution) : (pure value : Exec α) e = .ok value e :=
  rfl

@[simp] theorem throw_apply (fault : Fault) (e : Execution) :
    (throw fault : Exec α) e = .error fault e := rfl

@[simp] theorem get_apply (e : Execution) : (get : Exec Execution) e = .ok e e := rfl

@[simp] theorem modify_apply (f : Execution → Execution) (e : Execution) :
    (modify f : Exec Unit) e = .ok () (f e) := rfl

@[simp] theorem bind_apply (x : Exec α) (f : α → Exec β) (e : Execution) :
    (x >>= f) e = match x e with
      | .ok value e' => f value e'
      | .error fault e' => .error fault e' := by
  cases h : x e <;> simp [bind, EStateM.bind, h]

@[simp] theorem map_apply (f : α → β) (x : Exec α) (e : Execution) :
    (f <$> x) e = match x e with
      | .ok value e' => .ok (f value) e'
      | .error fault e' => .error fault e' := by
  cases h : x e <;> simp [Functor.map, EStateM.map, h]

@[simp] theorem ofExcept_ok (value : α) : ofExcept (.ok value) = pure value := rfl

@[simp] theorem ofExcept_error (fault : Fault) :
    (ofExcept (.error fault) : Exec α) = throw fault := rfl

/-! ## Accesses -/

theorem readByte_toNat (address : UInt8) (e : Execution) :
    readByte address.toNat e = .ok (e.memory.cell address) e := by
  simp [readByte, Memory.read_toNat]

theorem writeByte_toNat (address value : UInt8) (e : Execution) :
    writeByte address.toNat value e =
      .ok () { e with memory := e.memory.withCell address value } := by
  simp [writeByte, Memory.write_toNat]

theorem readRegister_apply (index : UInt8) (e : Execution) :
    readRegister index e =
      if index < 8 then .ok (e.registers.reg index) e
      else .error (.invalidRegister index registerCount) e := by
  by_cases h : index < 8 <;> simp [readRegister, Registers.get_eq, h]

theorem writeRegister_apply (index value : UInt8) (e : Execution) :
    writeRegister index value e =
      if index < 8 then .ok () { e with registers := e.registers.withReg index value }
      else .error (.invalidRegister index registerCount) e := by
  by_cases h : index < 8 <;> simp [writeRegister, Registers.set_eq, h]

@[simp] theorem sp_apply (e : Execution) : sp e = .ok e.registers.sp e := rfl

@[simp] theorem setSp_apply (value : UInt8) (e : Execution) :
    setSp value e = .ok () { e with registers := e.registers.withSp value } := rfl

@[simp] theorem setPc_apply (pc : Nat) (e : Execution) : setPc pc e = .ok () { e with pc } := rfl

@[simp] theorem setState_apply (state : State) (e : Execution) :
    setState state e = .ok () { e with state } := rfl

@[simp] theorem print_apply (value : UInt8) (e : Execution) :
    print value e = .ok () { e with printed := e.printed ++ [value] } := rfl

/-! ## The stack and the arithmetic unit -/

theorem below_apply (sp : UInt8) (e : Execution) :
    below sp e = if sp = 0 then .error (.stackOverflow 0) e else .ok (sp - 1) e := by
  by_cases h : sp = 0 <;> simp [below, h]

theorem above_apply (sp : UInt8) (e : Execution) :
    above sp e = if sp = 255 then .error (.stackUnderflow 255) e else .ok (sp + 1) e := by
  by_cases h : sp = 255 <;> simp [above, h]

/-- A push writes one below the stack pointer and moves it there. -/
theorem push_apply (value : UInt8) (e : Execution) :
    push value e =
      if e.registers.sp = 0 then .error (.stackOverflow 0) e
      else .ok () { e with
        memory := e.memory.withCell (e.registers.sp - 1) value
        registers := e.registers.withSp (e.registers.sp - 1) } := by
  by_cases h : e.registers.sp = 0 <;> simp [push, below_apply, writeByte_toNat, h]

/-- A pop reads at the stack pointer and moves it up. -/
theorem pop_apply (e : Execution) :
    pop e =
      if e.registers.sp = 255 then .error (.stackUnderflow 255) e
      else .ok (e.memory.cell e.registers.sp)
        { e with registers := e.registers.withSp (e.registers.sp + 1) } := by
  simp only [pop, bind_apply, sp_apply, readByte_toNat, above_apply]
  by_cases h : e.registers.sp = 255
  · simp only [if_pos h]
  · simp [if_neg h]

/-- An instruction that the unit implements checks its registers in order and writes the first. -/
theorem alu_apply {i : Instruction} {combine : UInt8 → UInt8 → UInt8}
    (h : i.arithmetic? = some combine) (a b : UInt8) (e : Execution) :
    alu i a b e =
      if a < 8 then
        if b < 8 then .ok () { e with
          registers := e.registers.withReg a (combine (e.registers.reg a) (e.registers.reg b)) }
        else .error (.invalidRegister b registerCount) e
      else .error (.invalidRegister a registerCount) e := by
  by_cases ha : a < 8 <;> by_cases hb : b < 8 <;>
    simp [alu, h, readRegister_apply, writeRegister_apply, ha, hb]

/-- An instruction that the unit does not implement is refused. -/
theorem alu_apply_unsupported {i : Instruction} (h : i.arithmetic? = none) (a b : UInt8)
    (e : Execution) : alu i a b e = .error (.unsupportedOperation i.mnemonic) e := by
  simp [alu, h]

end Exec

end ByteMachine
