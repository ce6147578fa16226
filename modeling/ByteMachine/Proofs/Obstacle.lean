import ByteMachine.Proofs.Iteration

/-!
# Obstacles

A step fails when something stands in its way. `Obstacle m k fault` says that the `k`-th of seven
conditions holds of a machine, and which fault it is. The conditions are stated about the bytes at
the program counter, the stack pointer and the byte it points at, not about the stage of execution
that finds them, and several can hold at once.

A step fails with the fault of the first obstacle and succeeds when there is none
(`step_obstacle`). The proof climbs the ranks: each lemma `k_le` says that the obstacles before the
`k`-th are out of the way, and uses the one before it.
-/

namespace ByteMachine

/-- The conditions that keep a machine from taking a step, with their faults, in the order in which
they count. -/
inductive Obstacle (m : Machine) : Nat → Fault → Prop
  /-- The program counter is past the last address. -/
  | pastEnd (h : m.pc = 256) : Obstacle m 1 (.addressOutOfBounds 256 256)
  /-- The byte at the program counter is no opcode. -/
  | unknownOpcode {byte : UInt8} (hread : m.memory.read m.pc = .ok byte)
      (h : ∀ i, Instruction.opcode i ≠ byte) : Obstacle m 2 (.unknownOpcode byte m.pc)
  /-- The instruction runs over the end of memory. -/
  | overhang {i : Instruction} (hread : m.memory.read m.pc = .ok i.opcode)
      (h : 256 < m.pc + i.width) : Obstacle m 3 (.addressOutOfBounds 256 256)
  /-- An operand that should name a register does not; the first of them counts. -/
  | register {o : Operation} {r : UInt8} (ho : m.PointsAt o)
      (h : o.registerOperands.find? (8 ≤ ·) = some r) : Obstacle m 4 (.invalidRegister r 8)
  /-- The address behind a call does not fit in a byte. -/
  | returnAddress {r : UInt8} (ho : m.PointsAt (.call r)) (h : 255 < m.pc + 2) :
      Obstacle m 5 (.addressOutOfBounds 256 256)
  /-- There is no room on the stack for a push. -/
  | pushOverflow {r : UInt8} (ho : m.PointsAt (.push r)) (h : m.sp = 0) :
      Obstacle m 6 (.stackOverflow 0)
  /-- There is no room on the stack for a return address. -/
  | callOverflow {r : UInt8} (ho : m.PointsAt (.call r)) (h : m.sp = 0) :
      Obstacle m 6 (.stackOverflow 0)
  /-- The stack pointer cannot move up from the last address after a return. -/
  | retUnderflow (ho : m.PointsAt .ret) (h : m.sp = 255) : Obstacle m 7 (.stackUnderflow 255)
  /-- The stack pointer cannot move up from the last address after a pop. -/
  | popUnderflow {r : UInt8} (ho : m.PointsAt (.pop r)) (hr : r ≠ spIndex) (h : m.sp = 255) :
      Obstacle m 7 (.stackUnderflow 255)
  /-- A pop into the stack pointer moves it up from the popped value. -/
  | popSpUnderflow (ho : m.PointsAt (.pop spIndex)) (h : m.cell m.sp = 255) :
      Obstacle m 7 (.stackUnderflow 255)

/-- The fault of the first obstacle in a machine's way. -/
def FirstObstacle (m : Machine) (fault : Fault) : Prop :=
  ∃ k, Obstacle m k fault ∧ ∀ j other, Obstacle m j other → k ≤ j

namespace Obstacle

variable {m : Machine} {o : Operation} {k : Nat} {fault other : Fault}

/-- A condition has one fault. -/
theorem fault_unique (h : Obstacle m k fault) (h' : Obstacle m k other) : fault = other := by
  -- Two of the faults depend on what was read; the others are settled by the rank.
  cases h with
  | unknownOpcode hread =>
    cases h' with
    | unknownOpcode hread' => rw [Except.ok.inj (hread.symm.trans hread')]
  | register ho hr =>
    cases h' with
    | register ho' hr' =>
      obtain rfl := ho.unique ho'
      rw [Option.some.inj (hr.symm.trans hr')]
  | _ => cases h' <;> rfl

/-! ## Climbing the ranks -/

theorem one_le (h : Obstacle m k fault) : 1 ≤ k := by
  cases h <;> decide

theorem two_le {byte : UInt8} (hread : m.memory.read m.pc = .ok byte) (h : Obstacle m k fault) :
    2 ≤ k := by
  rcases Nat.lt_or_eq_of_le h.one_le with hlt | rfl
  · exact hlt
  · cases h with
    | pastEnd hpc =>
      have hlt := Memory.lt_of_read_eq_ok hread
      exact absurd hpc (Nat.ne_of_lt hlt)

theorem three_le {i : Instruction} (hread : m.memory.read m.pc = .ok i.opcode)
    (h : Obstacle m k fault) : 3 ≤ k := by
  rcases Nat.lt_or_eq_of_le (h.two_le hread) with hlt | rfl
  · exact hlt
  · cases h with
    | unknownOpcode hread' hnone =>
      exact absurd (Except.ok.inj (hread.symm.trans hread')) (hnone i)

theorem four_le (ho : m.PointsAt o) (h : Obstacle m k fault) : 4 ≤ k := by
  rcases Nat.lt_or_eq_of_le (h.three_le ho.1) with hlt | rfl
  · exact hlt
  · cases h with
    | overhang hread hover =>
      have hopcode := Except.ok.inj (ho.1.symm.trans hread)
      have hdecode := Instruction.decode?_opcode o.instruction
      rw [hopcode, Instruction.decode?_opcode] at hdecode
      rw [Option.some.inj hdecode] at hover
      exact absurd ho.pc_add_width_le (Nat.not_le.2 hover)

theorem five_le (ho : m.PointsAt o) (hr : o.registerOperands.find? (8 ≤ ·) = none)
    (h : Obstacle m k fault) : 5 ≤ k := by
  rcases Nat.lt_or_eq_of_le (h.four_le ho) with hlt | rfl
  · exact hlt
  · cases h with
    | register ho' hr' =>
      obtain rfl := ho.unique ho'
      rw [hr] at hr'
      cases hr'

theorem six_le (ho : m.PointsAt o) (hr : o.registerOperands.find? (8 ≤ ·) = none)
    (hcall : o.instruction = .call → m.pc + 2 ≤ 255) (h : Obstacle m k fault) : 6 ≤ k := by
  rcases Nat.lt_or_eq_of_le (h.five_le ho hr) with hlt | rfl
  · exact hlt
  · cases h with
    | returnAddress ho' hpc =>
      obtain rfl := ho.unique ho'
      exact absurd (hcall rfl) (Nat.not_le.2 hpc)

theorem seven_le (ho : m.PointsAt o) (hr : o.registerOperands.find? (8 ≤ ·) = none)
    (hpush : o.instruction ≠ .push) (hcall : o.instruction ≠ .call) (h : Obstacle m k fault) :
    7 ≤ k := by
  rcases Nat.lt_or_eq_of_le (h.six_le ho hr fun hc => absurd hc hcall) with hlt | rfl
  · exact hlt
  · cases h with
    | pushOverflow ho' =>
      obtain rfl := ho.unique ho'
      exact absurd rfl hpush
    | callOverflow ho' =>
      obtain rfl := ho.unique ho'
      exact absurd rfl hcall

end Obstacle

/-! ## Obstacles of an operation -/

section

variable {m : Machine} {o : Operation} {k : Nat} {fault : Fault}

/-- The first operand that names no register is the one that is refused. -/
theorem findSome?_registerFault? (operands : List UInt8) :
    operands.findSome? Operation.registerFault? =
      (operands.find? (8 ≤ ·)).map fun r => .invalidRegister r 8 := by
  induction operands with
  | nil => rfl
  | cons r rest ih =>
    rw [List.findSome?_cons, List.find?_cons, Operation.registerFault?]
    by_cases h : r < 8
    · rw [if_pos h, decide_eq_false (UInt8.not_le.2 h), ih]
    · rw [if_neg h, decide_eq_true (UInt8.not_lt.1 h)]
      rfl

theorem overflow?_eq_some {sp : UInt8} (h : Operation.overflow? sp = some fault) :
    sp = 0 ∧ fault = .stackOverflow 0 := by
  rw [Operation.overflow?] at h
  split at h
  · exact ⟨‹_›, (Option.some.inj h).symm⟩
  · cases h

theorem underflow?_eq_some {sp : UInt8} (h : Operation.underflow? sp = some fault) :
    sp = 255 ∧ fault = .stackUnderflow 255 := by
  rw [Operation.underflow?] at h
  split at h
  · exact ⟨‹_›, (Option.some.inj h).symm⟩
  · cases h

/-- An operation whose register operands are in order is kept only by the stack. -/
theorem FirstObstacle.of_stackFault? (ho : m.PointsAt o)
    (hr : o.registerOperands.find? (8 ≤ ·) = none) (h : o.stackFault? m = some fault) :
    FirstObstacle m fault := by
  cases o with
  | hlt | ldi | prn | add | mul => cases h
  | push r =>
    obtain ⟨hsp, rfl⟩ := overflow?_eq_some h
    exact ⟨6, .pushOverflow ho hsp, fun _ _ hj => hj.six_le ho hr (by intro hc; cases hc)⟩
  | call r =>
    simp only [Operation.stackFault?, Operation.returnFault?] at h
    rcases Nat.lt_or_ge 255 (m.pc + 2) with hlt | hle
    · have heq : m.pc + 2 = 256 := Nat.le_antisymm ho.pc_add_width_le hlt
      rw [if_neg (Nat.not_le.2 hlt), heq] at h
      cases h
      exact ⟨5, .returnAddress ho hlt, fun _ _ hj => hj.five_le ho hr⟩
    · rw [if_pos hle, Option.none_or] at h
      obtain ⟨hsp, rfl⟩ := overflow?_eq_some h
      exact ⟨6, .callOverflow ho hsp, fun _ _ hj => hj.six_le ho hr fun _ => hle⟩
  | pop r =>
    have hlast (j other) (hj : Obstacle m j other) : 7 ≤ j :=
      hj.seven_le ho hr (by intro hc; cases hc) (by intro hc; cases hc)
    simp only [Operation.stackFault?] at h
    by_cases hr7 : r = spIndex
    · subst hr7
      rw [if_pos rfl] at h
      obtain ⟨hcell, rfl⟩ := underflow?_eq_some h
      exact ⟨7, .popSpUnderflow ho hcell, hlast⟩
    · rw [if_neg hr7] at h
      obtain ⟨hsp, rfl⟩ := underflow?_eq_some h
      exact ⟨7, .popUnderflow ho hr7 hsp, hlast⟩
  | ret =>
    have hlast (j other) (hj : Obstacle m j other) : 7 ≤ j :=
      hj.seven_le ho hr (by intro hc; cases hc) (by intro hc; cases hc)
    obtain ⟨hsp, rfl⟩ := underflow?_eq_some h
    exact ⟨7, .retUnderflow ho hsp, hlast⟩

/-- The fault of an operation is that of the first obstacle. -/
theorem FirstObstacle.of_fault? (ho : m.PointsAt o) (h : o.fault? m = some fault) :
    FirstObstacle m fault := by
  rw [Operation.fault?, findSome?_registerFault?] at h
  cases hr : o.registerOperands.find? (8 ≤ ·) with
  | some r =>
    rw [hr] at h
    cases h
    exact ⟨4, .register ho hr, fun _ _ hj => hj.four_le ho⟩
  | none =>
    rw [hr] at h
    exact .of_stackFault? ho hr h

/-- An operation without a fault has nothing in its way. -/
theorem not_obstacle_of_fault? (ho : m.PointsAt o) (h : o.fault? m = none) :
    ¬ Obstacle m k fault := by
  intro hk
  -- The register operands are in order, so only an obstacle on the stack is left.
  have hle : 5 ≤ k := by
    rw [Operation.fault?, findSome?_registerFault?, Option.or_eq_none_iff] at h
    exact hk.five_le ho (Option.map_eq_none_iff.1 h.1)
  cases hk with
  | pastEnd | unknownOpcode | overhang | register => exact absurd hle (by decide)
  | returnAddress ho' hpc =>
    obtain rfl := ho.unique ho'
    exact Nat.not_le.2 hpc (Operation.fault?_call_eq_none_iff.1 h).2.1
  | pushOverflow ho' hsp =>
    obtain rfl := ho.unique ho'
    exact (Operation.fault?_push_eq_none_iff.1 h).2 hsp
  | callOverflow ho' hsp =>
    obtain rfl := ho.unique ho'
    exact (Operation.fault?_call_eq_none_iff.1 h).2.2 hsp
  | retUnderflow ho' hsp =>
    obtain rfl := ho.unique ho'
    exact Operation.fault?_ret_eq_none_iff.1 h hsp
  | popUnderflow ho' hr hsp =>
    obtain rfl := ho.unique ho'
    have hroom := (Operation.fault?_pop_eq_none_iff.1 h).2
    rw [if_neg hr] at hroom
    exact hroom hsp
  | popSpUnderflow ho' hcell =>
    obtain rfl := ho.unique ho'
    have hroom := (Operation.fault?_pop_eq_none_iff.1 h).2
    rw [if_pos rfl] at hroom
    exact hroom hcell

/-! ## Obstacles of a step -/

/-- The first obstacle has one fault. -/
theorem FirstObstacle.unique {other : Fault} (h : FirstObstacle m fault)
    (h' : FirstObstacle m other) : fault = other := by
  obtain ⟨k, hk, hfirst⟩ := h
  obtain ⟨k', hk', hfirst'⟩ := h'
  obtain rfl : k = k' := Nat.le_antisymm (hfirst k' other hk') (hfirst' k fault hk)
  exact hk.fault_unique hk'

/-- A step fails with the fault of the first obstacle, and succeeds when there is none. -/
theorem step_obstacle (hpc : m.pc ≤ 256) :
    (∃ fault, m.step.result = .error fault ∧ FirstObstacle m fault) ∨
    (∃ s, m.step.result = .ok s) ∧ ∀ k fault, ¬ Obstacle m k fault := by
  rcases Machine.fetch_cases m with ⟨o, ho, -⟩ | ⟨hge, hf⟩ | ⟨byte, hread, hnone, hf⟩ |
    ⟨i, hread, hover, hf⟩
  · have hstep := Machine.step_of_pointsAt ho
    cases hfault : o.fault? m with
    | some fault =>
      rw [hfault] at hstep
      exact .inl ⟨fault, by rw [hstep], .of_fault? ho hfault⟩
    | none =>
      rw [hfault] at hstep
      exact .inr ⟨⟨_, by rw [hstep]⟩, fun _ _ => not_obstacle_of_fault? ho hfault⟩
  · have heq : m.pc = 256 := Nat.le_antisymm hpc hge
    rw [heq] at hf
    exact .inl ⟨_, congrArg Outcome.result (Machine.step_of_fetch_error hf), 1, .pastEnd heq,
      fun _ _ hj => hj.one_le⟩
  · exact .inl ⟨_, congrArg Outcome.result (Machine.step_of_fetch_error hf), 2,
      .unknownOpcode hread hnone, fun _ _ hj => hj.two_le hread⟩
  · exact .inl ⟨_, congrArg Outcome.result (Machine.step_of_fetch_error hf), 3,
      .overhang hread hover, fun _ _ hj => hj.three_le hread⟩

end

/-! ## The faults of a program -/

/-- The faults that a program can cause. -/
inductive Fault.OfProgram : Fault → Prop
  | addressOutOfBounds : OfProgram (.addressOutOfBounds 256 256)
  | unknownOpcode (byte : UInt8) (pc : Nat) : OfProgram (.unknownOpcode byte pc)
  | invalidRegister (index : UInt8) : OfProgram (.invalidRegister index 8)
  | stackOverflow : OfProgram (.stackOverflow 0)
  | stackUnderflow : OfProgram (.stackUnderflow 255)

theorem Obstacle.ofProgram {m : Machine} {k : Nat} {fault : Fault} (h : Obstacle m k fault) :
    fault.OfProgram := by
  cases h <;> constructor

namespace Machine

theorem step_ofProgram {m : Machine} {fault : Fault} (hpc : m.pc ≤ 256)
    (h : m.step.result = .error fault) : fault.OfProgram := by
  rcases step_obstacle hpc with ⟨other, hother, k, hk, -⟩ | ⟨⟨s, hs⟩, -⟩
  · rw [h] at hother
    rw [Except.error.inj hother]
    exact hk.ofProgram
  · rw [h] at hs
    cases hs

/-- A run fails with the fault of its last step. -/
theorem run_ofProgram {m : Machine} {run : Run UInt8} {fault : Fault} (hpc : m.pc ≤ 256)
    (hrun : m.run = some run) (h : run.result = .error fault) : fault.OfProgram := by
  obtain ⟨n, -, hend, -, -⟩ := runWith_eq_some hrun
  rw [h] at hend
  exact step_ofProgram (pc_after_le hpc n) (Outcome.ending?_eq_error_iff.1 hend)

/-- **The faults of a step, classified.** A step fails exactly when one of the seven conditions
holds, and then with the fault of the first that does. So neither a step nor a run can fail in any
other way: no program makes the arithmetic unit refuse an instruction, and the only address out of
bounds is the one just past the end. -/
theorem step_error_iff_firstObstacle (m : Machine) (hpc : m.pc ≤ 256) :
    (∀ fault, m.step.result = .error fault ↔ FirstObstacle m fault) ∧
    ((∃ fault, m.step.result = .error fault) ↔ ∃ k fault, Obstacle m k fault) ∧
    (∀ fault, m.step.result = .error fault → fault.OfProgram) ∧
    (∀ run fault, m.run = some run → run.result = .error fault → fault.OfProgram) := by
  refine ⟨fun fault => ?_, ?_, fun _ => step_ofProgram hpc, fun _ _ => run_ofProgram hpc⟩
  · rcases step_obstacle hpc with ⟨other, hother, hfirst⟩ | ⟨⟨s, hs⟩, hnone⟩
    · rw [hother]
      constructor
      · intro h
        rw [← Except.error.inj h]
        exact hfirst
      · intro h
        rw [hfirst.unique h]
    · rw [hs]
      constructor
      · intro h
        cases h
      · rintro ⟨k, hk, -⟩
        exact absurd hk (hnone k fault)
  · rcases step_obstacle hpc with ⟨other, hother, k, hk, -⟩ | ⟨⟨s, hs⟩, hnone⟩
    · exact ⟨fun _ => ⟨k, other, hk⟩, fun _ => ⟨other, hother⟩⟩
    · constructor
      · rintro ⟨fault, hfault⟩
        rw [hs] at hfault
        cases hfault
      · rintro ⟨k, fault, hk⟩
        exact absurd hk (hnone k fault)

/-- A call of register 9 in the last two cells with the stack full: the register, the return address
and the stack are all in the way, and the register comes first. -/
theorem step_error_iff_firstObstacle_of_call :
    (254 : Nat) ≤ 256 ∧ FirstObstacle
      { initial with
        pc := 254
        registers := Registers.empty
        memory := (Memory.empty.withCell 254 0x50).withCell 255 9 } (.invalidRegister 9 8) :=
  ⟨by decide, ((step_error_iff_firstObstacle _ (by decide)).1 _).1 (by decide +kernel)⟩

end Machine

end ByteMachine
