import ByteMachine.Proofs.History

/-!
# The program counter stays in range

The program counter is a number without a bound, and no instruction checks it. It stays within
memory, or just behind it, all the same: an operation that goes on behind itself has been read in
full, so its last byte lies in memory; a jump goes to a byte; and a fault moves nothing. So there is
one way to get just behind memory, to fall through an operation whose last byte is the last of
memory (`exists_fallsThrough`), and no way to get any further.
-/

namespace ByteMachine

namespace Machine

/-! ## Falling through -/

/-- The program counter stands at an operation, and executing it goes on with the one behind. -/
def FallsThrough (m : Machine) (o : Operation) : Prop :=
  m.PointsAt o ∧ ∃ e, Exec.execute o ⟨{ m with state := .running }, []⟩ = .ok .next e

/-- Jumps lead into memory, so an operation that takes the program counter just behind it goes on
behind itself. -/
theorem flow_eq_next {m : Machine} {o : Operation} (hlt : m.pc < memorySize)
    (hend : o.pcAfter m = memorySize) :
    o.flow m = .next ∧ m.pc + o.instruction.width = memorySize := by
  cases o with
  | ldi | prn | add | mul | push | pop => exact ⟨rfl, hend⟩
  | hlt =>
    have hpc : m.pc = memorySize := hend
    exact absurd hpc (Nat.ne_of_lt hlt)
  | call r =>
    have htarget : (m.reg r).toNat = memorySize := hend
    exact absurd htarget (Nat.ne_of_lt (Memory.toNat_lt_memorySize _))
  | ret =>
    have htarget : (m.cell m.sp).toNat = memorySize := hend
    exact absurd htarget (Nat.ne_of_lt (Memory.toNat_lt_memorySize _))

/-- A step that gets just behind memory falls through an operation that ends with it. -/
theorem exists_fallsThrough {m : Machine} (hlt : m.pc < memorySize)
    (hend : m.step.machine.pc = memorySize) :
    ∃ o, m.FallsThrough o ∧ m.pc + o.instruction.width = memorySize := by
  rcases step_cases m with ⟨o, ho, hfault, hstep⟩ | ⟨fault, hstep⟩
  · rw [hstep] at hend
    obtain ⟨hflow, hwidth⟩ := flow_eq_next hlt hend
    -- No operation looks at the execution state, so its flow and its fault are those of `m`.
    have hrunning : o.fault? { m with state := .running } = none := by
      rw [← hfault]
      cases o <;> rfl
    have hnext : o.flow { m with state := .running } = .next := by
      rw [← hflow]
      cases o <;> rfl
    refine ⟨o, ⟨ho, ?_⟩, hwidth⟩
    rw [Exec.execute_apply, hrunning]
    show ∃ e, EStateM.Result.ok (o.flow { m with state := .running }) _ = .ok .next e
    rw [hnext]
    exact ⟨_, rfl⟩
  · rw [hstep] at hend
    have hpc : m.pc = memorySize := hend
    exact absurd hpc (Nat.ne_of_lt hlt)

/-- Just behind memory there is nothing to fetch. -/
theorem step_of_pc_eq {m : Machine} (h : m.pc = memorySize) :
    m.step = ⟨.error (.addressOutOfBounds memorySize memorySize), { m with state := .faulted }, []⟩ := by
  have hread := Memory.read_of_le (m := m.memory) (Nat.le_of_eq h.symm)
  have hfetch : m.fetch = .error (.addressOutOfBounds m.pc memorySize) := by
    rw [fetch, hread]
    rfl
  rw [h] at hfetch
  exact step_of_fetch_error hfetch

/-! ## Reachable machines -/

/-- No command takes the program counter further than one past the last address. -/
theorem perform_pc_le {m : Machine} {command : Command} {reply : Reply} (hm : m.pc ≤ memorySize)
    (hreply : m.perform command = some reply) : reply.machine.pc ≤ memorySize := by
  -- The three commands that may move the program counter, each in its own way.
  by_cases hstep : command = .step
  · subst hstep
    cases hreply
    exact pc_step_le hm
  by_cases hrun : command = .run
  · subst hrun
    obtain ⟨n, hmachine⟩ := perform_run hreply
    rw [hmachine]
    exact pc_after_le hm n
  by_cases hreset : command = .reset
  · subst hreset
    cases hreply
    exact Nat.zero_le _
  rw [(perform_control hreply hstep hrun hreset).1]
  exact hm

theorem Reachable.pc_le {m : Machine} (h : m.Reachable) : m.pc ≤ memorySize :=
  Reachable.induction (P := fun m => m.pc ≤ memorySize) (Nat.zero_le _)
    (fun _ _ _ hm hreply => perform_pc_le hm hreply) h

/-- **The program counter stays in range.** Whatever commands have led to a machine, and whatever
they came to, the program counter is at most 256, and so it is after any number of steps. A step
takes it from an address to 256 only by falling through an operation whose last byte is at 255. At
256 a step fails, and the program counter stays there. -/
theorem pc_in_range (m : Machine) (hm : m.Reachable) (n : Nat) :
    (m.after n).pc ≤ 256 ∧
    ((m.after n).pc < 256 → (m.after n).step.machine.pc = 256 →
      ∃ o, (m.after n).FallsThrough o ∧ (m.after n).pc + (o.encode.length - 1) = 255) ∧
    ((m.after n).pc = 256 →
      (m.after n).step.result = .error (.addressOutOfBounds 256 256) ∧
        (m.after n).step.machine.pc = 256) := by
  refine ⟨pc_after_le hm.pc_le n, fun hlt hend => ?_, fun h => ?_⟩
  · obtain ⟨o, ho, hwidth⟩ := exists_fallsThrough hlt hend
    have hlength : o.encode.length = o.instruction.width := by
      rw [Operation.encode, List.length_cons, Operation.length_operands, Instruction.width,
        Nat.add_comm]
    have hwidth' : (m.after n).pc + o.instruction.width = 256 := hwidth
    refine ⟨o, ho, ?_⟩
    rw [hlength]
    omega
  · rw [step_of_pc_eq h]
    exact ⟨rfl, h⟩

/-- A call to 254, where a print of the last two cells stands: its step falls off the end, and the
step after it fails. -/
theorem pc_in_range_of_print_at_end :
    ∃ m : Machine, m.Reachable ∧ m.pc = 254 ∧ m.step.machine.pc = 256 ∧
      (∃ o, m.FallsThrough o ∧ m.pc + (o.encode.length - 1) = 255) ∧
      m.step.machine.step.result = .error (.addressOutOfBounds 256 256) := by
  obtain ⟨m, hm, hboth⟩ := exists_reachable (p := fun m => m.pc = 254 ∧ m.step.machine.pc = 256)
    [.load [0x82, 0, 254, 0x50, 0], .writeByte 254 0x47, .writeByte 255 0, .step, .step]
    (by decide +kernel)
  obtain ⟨hpc, hend⟩ := of_decide_eq_true hboth
  have hlt : m.pc < 256 := by
    rw [hpc]
    decide
  have hfalls := (pc_in_range m hm 0).2.1 hlt hend
  have hlast := (pc_in_range m hm 1).2.2 hend
  exact ⟨m, hm, hpc, hend, hfalls, hlast.1⟩

end Machine

end ByteMachine
