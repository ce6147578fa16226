import ByteMachine.Proofs.History
import ByteMachine.Proofs.Recurrence

/-!
# Runs, cut and taken up again

A run keeps nothing that a machine does not hold: a step looks at neither the execution state nor
the values printed before it. So a run can be cut behind any of its steps. Taken up on the machine
that is left there, it goes on as if it had taken the steps before the cut itself
(`RunsFor.runWith_eq`).

Taken up where it has ended, a run goes nowhere. The step that ends it halts, and a halt moves
nothing, or it faults, and a fault changes nothing; either way the machine stands where the same step
comes next, with the same outcome and nothing to print (`Stopped`).
-/

namespace ByteMachine

/-- A run with observations made before it. -/
def Run.precededBy {ε : Type} (seen : List ε) (run : Run ε) : Run ε :=
  { run with observed := seen.toArray ++ run.observed }

namespace Machine

variable {ε : Type} {m : Machine}

/-! ## A run cut in two -/

/-- The run of a machine is that of the machine some steps further on, preceded by what these steps
have shown. -/
theorem RunsFor.runWith_eq {k : Nat} (h : m.RunsFor k) (observer : Observer ε) :
    m.runWith observer =
      ((m.after k).runWith observer).map (Run.precededBy (m.observedIn observer k)) := by
  cases hrest : (m.after k).runWith observer with
  | some run =>
    obtain ⟨n, hruns, hend, hmachine, hobserved⟩ := runWith_eq_some hrest
    refine runWith_eq_some_iff.2 ⟨k + n, runsFor_add.2 ⟨h, hruns⟩, ?_, ?_, ?_⟩
    · rw [after_add]
      exact hend
    · rw [Nat.add_assoc, after_add]
      exact hmachine
    · rw [Nat.add_assoc, observedIn_add, ← hobserved]
      exact Array.toList_append
  | none =>
    -- Steps that never end do not end behind the cut either.
    have hforever := runWith_eq_none_iff.1 hrest
    exact runWith_eq_none_iff.2 fun n =>
      (runsFor_add.2 ⟨h, hforever n⟩).mono (Nat.le_add_left n k)

/-- **Running and stepping agree.** Let a number of steps leave the machine running. Its run ends
exactly if the run of the machine behind these steps does; the two then have one result and leave one
machine, and what the first prints is what the steps print and then what the second prints. If the
next step halts or faults, the run is over with it: it has that outcome, leaves the machine of that
step, and has printed what the steps have. -/
theorem run_agrees_with_steps (m : Machine) (k : Nat) (h : m.RunsFor k) :
    (m.run = none ↔ (m.after k).run = none) ∧
    (∀ run, (m.after k).run = some run → m.run = some (run.precededBy (m.printedIn k))) ∧
    ((m.after k).step.result = .ok .halted →
      m.run = some ⟨.ok (), m.after (k + 1), (m.printedIn (k + 1)).toArray⟩) ∧
    (∀ fault, (m.after k).step.result = .error fault →
      m.run = some ⟨.error fault, m.after (k + 1), (m.printedIn (k + 1)).toArray⟩) := by
  have hcut : m.run = (m.after k).run.map (Run.precededBy (m.printedIn k)) := h.runWith_eq _
  refine ⟨?_, fun run hrun => ?_, fun hhalts => ?_, fun fault hfault => ?_⟩
  · rw [hcut, Option.map_eq_none_iff]
  · rw [hcut, hrun]
    rfl
  · have hend : (m.after k).step.ending? = some (.ok ()) := by
      rw [Outcome.ending?, hhalts]
    exact h.runWith_eq_of_ending hend _
  · exact h.runWith_eq_of_ending (Outcome.ending?_eq_error_iff.2 hfault) _

/-- The program prints 8 twice; cut between the two, its run prints 8 once more. -/
theorem run_agrees_with_steps_of_print :
    ∃ m, m = loaded [0x82, 0, 8, 0x47, 0, 0x47, 0, 1] ∧ m.RunsFor 2 ∧ m.printedIn 2 = [8] ∧
      (m.after 2).run = some ⟨.ok (), m.after 4, #[8]⟩ ∧
      m.run = some ⟨.ok (), m.after 4, #[8, 8]⟩ := by
  obtain ⟨m, hm⟩ : ∃ m, m = loaded [0x82, 0, 8, 0x47, 0, 0x47, 0, 1] := ⟨_, rfl⟩
  have hruns : m.RunsFor 3 := by
    rw [hm]
    decide +kernel
  have hhalts : (m.after 3).step.result = .ok .halted := by
    rw [hm]
    decide +kernel
  have hfirst : m.printedIn 2 = [8] := by
    rw [hm]
    decide +kernel
  have hsecond : (m.after 2).printedIn 2 = [8] := by
    rw [hm]
    decide +kernel
  -- The run behind the cut takes two more steps, the second of which halts.
  have hbehind : (m.after 2).RunsFor 1 := ((runsFor_add (i := 2)).1 hruns).2
  have hrest := (run_agrees_with_steps (m.after 2) 1 hbehind).2.2.1 hhalts
  rw [hsecond] at hrest
  have hboth := (run_agrees_with_steps m 2 (hruns.mono (by decide))).2.1 _ hrest
  rw [hfirst] at hboth
  exact ⟨m, hm, hruns.mono (by decide), hfirst, hrest, hboth⟩

/-! ## A run that has ended -/

/-- The next step comes to this result and does nothing else. -/
def Stopped (m : Machine) (result : Except Fault Unit) : Prop :=
  m.step = ⟨result.map fun _ => .halted, m, []⟩

/-- A step that ends a run leaves a machine that is stopped with the end of the run. -/
theorem stopped_step {result : Except Fault Unit} (hend : m.step.ending? = some result) :
    m.step.machine.Stopped result := by
  -- The machine is left in place, so the step after it is the same step.
  rcases step_cases m with ⟨o, ho, -, hstep⟩ | ⟨fault, hstep⟩
  · rw [hstep] at hend
    cases o with
    | hlt =>
      cases hend
      have halike : (Operation.hlt.effect m).Alike m := ⟨rfl, rfl, rfl⟩
      rw [hstep, Stopped, halike.step_eq, hstep]
      rfl
    | ldi | prn | add | mul | push | pop | call | ret => cases hend
  · rw [hstep] at hend
    cases hend
    have halike : ({ m with state := .faulted } : Machine).Alike m := ⟨rfl, rfl, rfl⟩
    rw [hstep, Stopped, halike.step_eq, hstep]
    rfl

theorem stopped_of_run {observer : Observer ε} {run : Run ε} (h : m.runWith observer = some run) :
    run.machine.Stopped run.result := by
  obtain ⟨n, -, hend, hmachine, -⟩ := runWith_eq_some h
  rw [hmachine]
  exact stopped_step hend

/-- What a machine whose run has ended replies to a step or another run. -/
def finalReply (m : Machine) (result : Except Fault Unit) (command : Command) : Reply :=
  Outcome.reply ⟨result, m, []⟩ fun _ => if command = .step then .state .halted else .done

theorem Stopped.run_eq {result : Except Fault Unit} (h : m.Stopped result) :
    m.run = some ⟨result, m, #[]⟩ := by
  have hend : (m.after 0).step.ending? = some result := by
    rw [after, h]
    cases result <;> rfl
  have hrun := (runsFor_zero m).runWith_eq_of_ending hend fun _ outcome => outcome.printed
  rw [observedIn, observedIn, after, after, after, h] at hrun
  exact hrun

theorem Stopped.perform {result : Except Fault Unit} (h : m.Stopped result) {command : Command}
    (hcommand : command = .step ∨ command = .run) :
    m.perform command = some (m.finalReply result command) := by
  rcases hcommand with rfl | rfl
  · rw [Machine.perform, h]
    cases result <;> rfl
  · rw [Machine.perform, h.run_eq]
    rfl

theorem Stopped.history {result : Except Fault Unit} (h : m.Stopped result)
    {commands : List Command} (hcommands : ∀ c ∈ commands, c = .step ∨ c = .run) :
    m.history commands = some (commands.map (m.finalReply result), m) := by
  induction commands with
  | nil => rfl
  | cons command rest ih =>
    obtain ⟨hfirst, hrest⟩ := List.forall_mem_cons.1 hcommands
    exact history_cons (h.perform hfirst) (ih hrest)

/-- **The end of a run is final.** A machine on which a run has ended may be run again, or stepped,
any number of times and in any order. Every one of these commands has the outcome of the run, with a
step telling a halt by the halted state; none changes anything of the machine, and none prints. -/
theorem run_end_is_final (m : Machine) (run : Run UInt8) (h : m.run = some run)
    (commands : List Command) (hcommands : ∀ c ∈ commands, c = .step ∨ c = .run) :
    run.machine.history commands =
      some (commands.map (run.machine.finalReply run.result), run.machine) :=
  (stopped_of_run h).history hcommands

/-- The program prints 8 and then meets a byte that is no opcode. Asked to go on, the machine only
repeats the fault. -/
theorem run_end_is_final_of_unknown_opcode :
    ∃ run, (loaded [0x82, 0, 8, 0x47, 0, 0]).run = some run ∧ run.observed.toList = [8] ∧
      run.machine.history [.run, .step, .step, .run] =
        some (List.replicate 4 ⟨.error (.fault (.unknownOpcode 0 5)), run.machine, []⟩,
          run.machine) := by
  have hends : (loaded [0x82, 0, 8, 0x47, 0, 0]).run.map (fun run =>
      (run.result, run.observed.toList)) = some (.error (.unknownOpcode 0 5), [8]) := by
    decide +kernel
  obtain ⟨run, hrun, hleft⟩ := Option.map_eq_some_iff.1 hends
  obtain ⟨hresult, hprinted⟩ := Prod.mk.inj hleft
  have hfinal := run_end_is_final _ run hrun [.run, .step, .step, .run] (by decide)
  rw [hresult] at hfinal
  exact ⟨run, hrun, hprinted, hfinal⟩

end Machine

end ByteMachine
