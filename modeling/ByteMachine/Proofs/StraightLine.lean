import ByteMachine.Proofs.ExecutionState
import ByteMachine.Proofs.Recurrence
import Mathlib.Data.Nat.Count

/-!
# Code that does not jump

An operation that does not jump and does not halt goes on behind itself. It has been read in full,
so it ends within memory, and it is at least two bytes wide: only a halt and a return are shorter.
So each step that leaves the machine running takes the program counter on by two, up to the end of
memory, unless it executes a call or a return (`pc_step_of_running`). Every other step leaves the
program counter where it is.

There are therefore only so many steps without a jump that leave the machine running
(`pc_add_runningSteps_le`), and a run without one ends. What code is executed does not matter, nor
whether it is the code that stood in memory at the beginning.
-/

namespace ByteMachine

namespace Machine

/-- The next step executes a call or a return. -/
def Jumps (m : Machine) : Prop := (∃ r, m.Executes (.call r)) ∨ m.Executes .ret

/-- The number of steps, among the first `n`, that leave the machine running. -/
def runningSteps (m : Machine) (n : Nat) : Nat :=
  Nat.count (fun k => (m.after k).step.result = .ok .running) n

variable {m : Machine} {n : Nat}

/-! ## One step -/

/-- A machine that stands at any other operation does not jump. -/
theorem PointsAt.not_jumps {o : Operation} (ho : m.PointsAt o) (h : ¬ o.instruction.setsPc) :
    ¬ m.Jumps := by
  rintro (⟨r, hcall, -⟩ | ⟨hret, -⟩)
  · obtain rfl := ho.unique hcall
    exact h (Instruction.setsPc_iff.2 (.inl rfl))
  · obtain rfl := ho.unique hret
    exact h (Instruction.setsPc_iff.2 (.inr rfl))

/-- Without a jump, a step that leaves the machine running gets on by two bytes at least. -/
theorem pc_step_of_running (h : m.step.result = .ok .running) (hjump : ¬ m.Jumps) :
    m.pc + 2 ≤ m.step.machine.pc := by
  obtain ⟨o, ho⟩ := exists_executes h
  obtain ⟨-, hstep⟩ := ho.step_eq
  rw [hstep] at h ⊢
  cases o with
  | hlt => cases h
  | ldi | add | mul => exact Nat.le_succ (m.pc + 2)
  | prn | push | pop => exact Nat.le_refl (m.pc + 2)
  | call r => exact absurd (.inl ⟨r, ho⟩) hjump
  | ret => exact absurd (.inr ho) hjump

/-- A step that halts or fails stays where it is. -/
theorem pc_step_of_not_running (h : m.step.result ≠ .ok .running) : m.step.machine.pc = m.pc := by
  rcases step_cases m with ⟨o, -, -, hstep⟩ | ⟨fault, hstep⟩
  · rw [hstep] at h ⊢
    cases o with
    | hlt => rfl
    | ldi | prn | add | mul | push | pop | call | ret => exact absurd rfl h
  · rw [hstep]

/-! ## Any number of steps -/

theorem runningSteps_succ (m : Machine) (n : Nat) :
    m.runningSteps (n + 1) =
      m.runningSteps n + if (m.after n).step.result = .ok .running then 1 else 0 :=
  Nat.count_succ _ n

/-- Without jumps, the program counter has got on by two bytes for each step that left the machine
running. -/
theorem pc_add_runningSteps_le (h : ∀ k < n, ¬ (m.after k).Jumps) :
    m.pc + 2 * m.runningSteps n ≤ (m.after n).pc := by
  induction n with
  | zero => exact Nat.le_refl m.pc
  | succ n ih =>
    have hbefore := ih fun k hk => h k (Nat.lt_succ_of_lt hk)
    rw [runningSteps_succ, after]
    by_cases hrunning : (m.after n).step.result = .ok .running
    · have hstep := pc_step_of_running hrunning (h n n.lt_succ_self)
      rw [if_pos hrunning]
      omega
    · have hstep := pc_step_of_not_running hrunning
      rw [if_neg hrunning]
      omega

theorem RunsFor.runningSteps_eq (h : m.RunsFor n) : m.runningSteps n = n :=
  Nat.count_iff_forall.2 h

/-- Steps without jumps can leave the machine running only so often. -/
theorem runningSteps_le (hpc : m.pc ≤ memorySize) (h : ∀ k < n, ¬ (m.after k).Jumps) :
    m.runningSteps n ≤ (memorySize - m.pc) / 2 := by
  have hon := pc_add_runningSteps_le h
  have hlast := pc_after_le hpc n
  omega

/-! ## Runs -/

/-- **Code that does not jump ends.** Of any number of steps in a row that execute neither a call
nor a return, at most half as many leave the machine running as there are bytes from the program
counter to the end of memory. So a run that executes neither ends, with a halt or with a fault,
after at most one step more, whatever it writes over its own code. -/
theorem straight_code_ends (m : Machine) (hpc : m.pc ≤ 256) :
    (∀ n, (∀ k < n, ¬ (m.after k).Jumps) → m.runningSteps n ≤ (256 - m.pc) / 2) ∧
    ((∀ k, m.RunsFor k → ¬ (m.after k).Jumps) →
      ∃ n run, m.run = some run ∧ m.RunsFor n ∧ (m.after n).step.result ≠ .ok .running ∧
        run.machine = m.after (n + 1) ∧ n + 1 ≤ (256 - m.pc) / 2 + 1 ∧
        (run.result = .ok () ∧ run.machine.state = .halted ∨
          ∃ fault, run.result = .error fault ∧ run.machine.state = .faulted)) := by
  refine ⟨fun n h => runningSteps_le hpc h, fun hstraight => ?_⟩
  have hbound (n) (hruns : m.RunsFor n) : n ≤ (256 - m.pc) / 2 := by
    have hle := runningSteps_le hpc fun k hk => hstraight k (hruns.mono (Nat.le_of_lt hk))
    rwa [hruns.runningSteps_eq] at hle
  cases hrun : m.run with
  | none =>
    have hforever := runWith_eq_none_iff.1 hrun
    exact absurd (hbound _ (hforever ((256 - m.pc) / 2 + 1))) (Nat.not_succ_le_self _)
  | some run =>
    obtain ⟨n, hruns, hend, hmachine, -⟩ := runWith_eq_some hrun
    refine ⟨n, run, rfl, hruns, fun hrunning => ?_, hmachine, Nat.succ_le_succ (hbound n hruns), ?_⟩
    · rw [Outcome.ending?_eq_none_iff.2 hrunning] at hend
      cases hend
    · rw [hmachine]
      exact state_of_ending hend

/-- Four operations of two bytes fill the end of memory, and the push at 248 makes a print of the
call behind it. The bound is reached, and the run ends with the fetch at 256. -/
theorem straight_code_ends_of_overwritten_call :
    ∃ m : Machine, m = { initial with
        pc := 248
        registers := (Registers.empty.withReg 0 0x47).withSp 251
        memory := (((Memory.empty.withCell 248 0x45).withCell 250 0x50).withCell 252 0x47).withCell
          254 0x47 } ∧
      m.memory.Spells 250 (Operation.call 0).encode ∧ m.pc ≤ 256 ∧
      (∀ k, m.RunsFor k → ¬ (m.after k).Jumps) ∧
      m.runningSteps 4 = 4 ∧ m.runningSteps 4 ≤ (256 - m.pc) / 2 ∧
      ∃ n run, m.run = some run ∧ m.RunsFor n ∧ (m.after n).step.result ≠ .ok .running ∧
        run.machine = m.after (n + 1) ∧ n + 1 ≤ 5 := by
  obtain ⟨m, hm⟩ : ∃ m : Machine, m = { initial with
      pc := 248
      registers := (Registers.empty.withReg 0 0x47).withSp 251
      memory := (((Memory.empty.withCell 248 0x45).withCell 250 0x50).withCell 252 0x47).withCell
        254 0x47 } := ⟨_, rfl⟩
  have hcall : m.memory.Spells 250 (Operation.call 0).encode ∧ m.pc = 248 := by
    rw [hm]
    decide +kernel
  have hpoints : m.PointsAt (.push 0) ∧ (m.after 1).PointsAt (.prn 0) ∧
      (m.after 2).PointsAt (.prn 0) ∧ (m.after 3).PointsAt (.prn 0) := by
    rw [hm]
    decide +kernel
  have hruns : m.RunsFor 4 ∧
      (m.after 4).step.result = .error (.addressOutOfBounds 256 memorySize) := by
    rw [hm]
    decide +kernel
  obtain ⟨hcode, hpc⟩ := hcall
  obtain ⟨hfour, hend⟩ := hruns
  obtain ⟨hpush, hsecond, hthird, hfourth⟩ := hpoints
  have hstraight (k) (hk : m.RunsFor k) : ¬ (m.after k).Jumps := by
    match k with
    | 0 => exact hpush.not_jumps (by decide)
    | 1 => exact hsecond.not_jumps (by decide)
    | 2 => exact hthird.not_jumps (by decide)
    | 3 => exact hfourth.not_jumps (by decide)
    | 4 =>
      rintro (⟨r, hjump⟩ | hjump)
      all_goals
        rw [hjump.step_eq.2] at hend
        cases hend
    | k + 5 =>
      have hrunning := hk 4 (by omega)
      rw [hend] at hrunning
      cases hrunning
  have hle : m.pc ≤ 256 := by omega
  obtain ⟨hcount, hrun⟩ := straight_code_ends m hle
  obtain ⟨n, run, hsome, hn, hlast, hmachine, hbound, -⟩ := hrun hstraight
  rw [hpc] at hbound
  exact ⟨m, hm, hcode, hle, hstraight, hfour.runningSteps_eq,
    hcount 4 fun k hk => hstraight k (hfour.mono (Nat.le_of_lt hk)),
    n, run, hsome, hn, hlast, hmachine, hbound⟩

end Machine

end ByteMachine
