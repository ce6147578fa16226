import ByteMachine.Proofs.LastStore

/-!
# Return addresses

A call leaves its return address where the stack pointer stands afterwards. Pushes and calls write
one below the stack pointer and nothing else writes to memory, so as long as the stack pointer is
never above that place, whatever runs in between cannot touch it (`cell_after_of_sp_le`). It takes no
assumption on the code that runs, which may call, push, pop, rewrite itself, and move the stack
pointer as it likes.
-/

namespace ByteMachine

namespace Machine

/-- Steps that keep the stack pointer at or below a cell leave the cell alone. -/
theorem cell_after_of_sp_le {m : Machine} {a : UInt8} {n : Nat}
    (h : ∀ k < n, (m.after k).sp ≤ a) : (m.after n).cell a = m.cell a := by
  refine cell_after_of_not_stores fun k hk value hstores => ?_
  have hle : (m.after k).sp.toNat ≤ a.toNat := UInt8.le_iff_toNat_le.1 (h k hk)
  have hsp := hstores.sp_eq
  omega

/-! ## From the call to the return -/

/-- A call that succeeds stores the address behind it where it leaves the stack pointer. -/
theorem step_call {m : Machine} {r : UInt8} (ho : m.PointsAt (.call r))
    (hok : m.step.result = .ok .running) :
    m.sp ≠ 0 ∧ m.step.machine.sp = m.sp - 1 ∧
      (m.step.machine.cell m.step.machine.sp).toNat = m.pc + 2 := by
  obtain ⟨hfault, hstep⟩ := ho.step_eq_of_ok hok
  obtain ⟨-, -, hsp⟩ := Operation.fault?_call_eq_none_iff.1 hfault
  have hmove : m.step.machine.sp = m.sp - 1 := by
    rw [hstep]
    exact Registers.sp_withSp _ _
  have hstore : m.step.machine.cell (m.sp - 1) = UInt8.ofNat (m.pc + 2) := by
    rw [hstep]
    exact Memory.cell_withCell_self _ _ _
  refine ⟨hsp, hmove, ?_⟩
  rw [hmove, hstore, toNat_ofNat_add_two hfault]

/-- A return goes where the stack pointer points and moves it up. -/
theorem step_ret {m : Machine} (ho : m.PointsAt .ret) (hsp : m.sp ≠ 255) :
    m.step.result = .ok .running ∧ m.step.machine.pc = (m.cell m.sp).toNat ∧
      m.step.machine.sp = m.sp + 1 := by
  rw [ho.step_eq (Operation.fault?_ret_eq_none_iff.2 hsp)]
  exact ⟨rfl, rfl, Registers.sp_withSp _ _⟩

/-- **The stack discipline keeps return addresses.** After a call that succeeds, let any number of
steps follow, each from a machine whose stack pointer is not above where the call left it. Whatever
they do, no cell from there on changes, and a return with the stack pointer back in its place goes
behind the call and takes the stack pointer to where the call found it. -/
theorem return_address_kept (m : Machine) (r : UInt8) (hcall : m.PointsAt (.call r))
    (hok : m.step.result = .ok .running) (n : Nat)
    (hsp : ∀ k < n, (m.step.machine.after k).sp ≤ m.step.machine.sp) :
    (∀ a, m.step.machine.sp ≤ a →
      (m.step.machine.after n).cell a = m.step.machine.cell a) ∧
    ((m.step.machine.after n).PointsAt .ret →
      (m.step.machine.after n).sp = m.step.machine.sp →
        (m.step.machine.after n).step.result = .ok .running ∧
        (m.step.machine.after n).step.machine.pc = m.pc + 2 ∧
        (m.step.machine.after n).step.machine.sp = m.sp) := by
  have hkept (a) (ha : m.step.machine.sp ≤ a) :
      (m.step.machine.after n).cell a = m.step.machine.cell a :=
    cell_after_of_sp_le fun k hk => UInt8.le_trans (hsp k hk) ha
  refine ⟨hkept, fun hret heq => ?_⟩
  obtain ⟨hne, hmove, hstore⟩ := step_call hcall hok
  -- The call moved the stack pointer down, so there is room to move it up again.
  have hlast : (m.step.machine.after n).sp ≠ 255 := by
    rw [heq, hmove]
    grind
  obtain ⟨hresult, hpc, hup⟩ := step_ret hret hlast
  refine ⟨hresult, ?_, ?_⟩
  · rw [hpc, heq, hkept _ UInt8.le_rfl, hstore]
  · rw [hup, heq, hmove, UInt8.sub_add_cancel]

/-- The call at 3 enters a subroutine at 10 that pushes and pops before it returns. -/
theorem return_address_kept_of_subroutine :
    ∃ m, m = (loaded [0x82, 1, 10, 0x50, 1, 1, 0, 0, 0, 0, 0x45, 1, 0x46, 2, 0x11]).step.machine ∧
      m.PointsAt (.call 1) ∧ m.step.result = .ok .running ∧
      (∀ k < 2, (m.step.machine.after k).sp ≤ m.step.machine.sp) ∧
      (m.step.machine.after 2).step.result = .ok .running ∧
      (m.step.machine.after 2).step.machine.pc = m.pc + 2 ∧
      (m.step.machine.after 2).step.machine.sp = m.sp := by
  refine ⟨_, rfl, by decide +kernel, by decide +kernel, by decide +kernel, ?_⟩
  exact (return_address_kept _ 1 (by decide +kernel) (by decide +kernel) 2
    (by decide +kernel)).2 (by decide +kernel) (by decide +kernel)

end Machine

end ByteMachine
