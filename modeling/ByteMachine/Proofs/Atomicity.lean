import ByteMachine.Command
import ByteMachine.Proofs.Recurrence

/-!
# A fault changes nothing

Nothing undoes a fault: the machine survives it as it stood when it arose. That it stood as before is
therefore a fact about each computation, namely that every check in it comes before every change.
`Exec.Atomic` states it, and it is proved of each computation from what the computation does.

`Machine.perform_error` carries it over to commands, where a step is the one command that leaves a
trace of its failure, the faulted state. A run that fails is atomic in its last step only
(`Machine.run_eq_error_iff`): the steps before it count, and the last one adds nothing to them.
-/

namespace ByteMachine

namespace Exec

variable {α β : Type}

/-- A fault leaves the execution as it was. -/
def Atomic (x : Exec α) : Prop := ∀ e fault e', x e = .error fault e' → e' = e

/-- A check and then something that cannot fail. -/
theorem atomic_of_check {check : Execution → Except Fault α} {act : α → Exec β}
    (hact : ∀ a e, ∃ b e', act a e = .ok b e') :
    Atomic (do act (← ofExcept (check (← get)))) := by
  intro e fault e' h
  cases hcheck : check e with
  | error g =>
    simp only [bind_apply, get_apply, hcheck, ofExcept_error, throw_apply] at h
    cases h
    rfl
  | ok a =>
    obtain ⟨b, e'', hb⟩ := hact a e
    simp only [bind_apply, get_apply, hcheck, ofExcept_ok, pure_apply, hb] at h
    cases h

theorem atomic_load (bytes : List UInt8) : Atomic (load bytes) :=
  atomic_of_check fun _ _ => ⟨_, _, rfl⟩

theorem atomic_writeByte (address : Nat) (value : UInt8) : Atomic (writeByte address value) :=
  atomic_of_check fun _ _ => ⟨_, _, rfl⟩

theorem atomic_writeRegister (index value : UInt8) : Atomic (writeRegister index value) :=
  atomic_of_check fun _ _ => ⟨_, _, rfl⟩

theorem atomic_readByte (address : Nat) : Atomic (readByte address) := by
  -- A read is the check alone; the act that follows it is to return the byte.
  rw [readByte, ← bind_pure (_ >>= _), bind_assoc]
  exact atomic_of_check fun _ _ => ⟨_, _, rfl⟩

theorem atomic_readRegister (index : UInt8) : Atomic (readRegister index) := by
  rw [readRegister, ← bind_pure (_ >>= _), bind_assoc]
  exact atomic_of_check fun _ _ => ⟨_, _, rfl⟩

theorem atomic_push (value : UInt8) : Atomic (push value) := by
  intro e fault e' h
  rw [push_apply] at h
  split at h <;> cases h
  rfl

theorem atomic_pop : Atomic pop := by
  intro e fault e' h
  rw [pop_apply] at h
  split at h <;> cases h
  rfl

theorem atomic_alu (i : Instruction) (a b : UInt8) : Atomic (alu i a b) := by
  intro e fault e' h
  cases hi : i.arithmetic? with
  | none =>
    rw [alu_apply_unsupported hi] at h
    cases h
    rfl
  | some combine =>
    rw [alu_apply hi] at h
    repeat' split at h
    all_goals cases h
    all_goals rfl

/-- Performed on a machine, an atomic computation that fails leaves the machine and prints
nothing. -/
theorem Atomic.apply_error {x : Exec α} (hx : Atomic x) {m : Machine} {fault : Fault}
    (h : (x.apply m).result = .error fault) : x.apply m = ⟨.error fault, m, []⟩ := by
  simp only [apply] at h ⊢
  cases he : x ⟨m, []⟩ with
  | ok value e =>
    rw [he] at h
    cases h
  | error g e =>
    rw [he] at h
    obtain rfl := hx _ _ _ he
    rw [Except.error.inj h]

end Exec

theorem Outcome.result_of_reply_error {α : Type} {outcome : Outcome α} {answer : α → Answer}
    {failure : Failure} (h : (outcome.reply answer).result = .error failure) :
    ∃ fault, outcome.result = .error fault := by
  rcases outcome with ⟨fault | value, machine, printed⟩
  · exact ⟨fault, rfl⟩
  · cases h

/-- The reply to an atomic command that fails. -/
theorem Exec.Atomic.reply_error {α : Type} {x : Exec α} (hx : x.Atomic) {m : Machine}
    {answer : α → Answer} {failure : Failure}
    (h : ((x.apply m).reply answer).result = .error failure) :
    ((x.apply m).reply answer).machine = m ∧ ((x.apply m).reply answer).printed = [] := by
  obtain ⟨fault, hfault⟩ := Outcome.result_of_reply_error h
  rw [hx.apply_error hfault]
  exact ⟨rfl, rfl⟩

namespace Machine

/-- A command other than a run that fails changes nothing, except that a step leaves the machine
faulted. -/
theorem perform_error {m : Machine} {command : Command} {reply : Reply} {failure : Failure}
    (hrun : command ≠ .run) (hreply : m.perform command = some reply)
    (h : reply.result = .error failure) :
    reply.machine = (if command = .step then { m with state := .faulted } else m) ∧
      reply.printed = [] := by
  -- A command either is an atomic computation made into a reply, or fails without computing at all.
  cases command with
  | run => exact absurd rfl hrun
  | reset =>
    cases hreply
    cases h
  | step =>
    cases hreply
    obtain ⟨fault, hfault⟩ := Outcome.result_of_reply_error h
    rw [step_eq_of_error hfault]
    exact ⟨rfl, rfl⟩
  | load bytes =>
    cases hreply
    exact (Exec.atomic_load bytes).reply_error h
  | loadSource source =>
    rw [perform] at hreply
    cases hparse : Source.parse source with
    | ok bytes =>
      rw [hparse] at hreply
      cases hreply
      exact (Exec.atomic_load bytes).reply_error h
    | error malformed =>
      rw [hparse] at hreply
      cases hreply
      exact ⟨rfl, rfl⟩
  | readByte address =>
    cases hreply
    exact (Exec.atomic_readByte address).reply_error h
  | writeByte address value =>
    cases hreply
    exact (Exec.atomic_writeByte address value).reply_error h
  | readRegister index =>
    cases hreply
    exact (Exec.atomic_readRegister index).reply_error h
  | writeRegister index value =>
    cases hreply
    exact (Exec.atomic_writeRegister index value).reply_error h
  | push value =>
    cases hreply
    exact (Exec.atomic_push value).reply_error h
  | pop =>
    cases hreply
    exact Exec.atomic_pop.reply_error h
  | alu i a b =>
    cases hreply
    exact (Exec.atomic_alu i a b).reply_error h

/-- A step that fails adds nothing to the steps before it. -/
theorem after_succ_of_error {m : Machine} {n : Nat} {fault : Fault}
    (h : (m.after n).step.result = .error fault) :
    m.after (n + 1) = { m.after n with state := .faulted } ∧
      m.printedIn (n + 1) = m.printedIn n := by
  have hstep := step_eq_of_error h
  constructor
  · rw [after, hstep]
  · rw [printedIn, observedIn, hstep, List.append_nil]
    rfl

/-- A run that fails leaves the machine as its last step found it, but faulted, with what the steps
before it printed. -/
theorem run_eq_error_iff {m : Machine} {run : Run UInt8} {fault : Fault} :
    m.run = some run ∧ run.result = .error fault ↔
      ∃ n, m.RunsFor n ∧ (m.after n).step.result = .error fault ∧
        run = ⟨.error fault, { m.after n with state := .faulted }, (m.printedIn n).toArray⟩ := by
  constructor
  · rintro ⟨hrun, hresult⟩
    obtain ⟨n, hruns, hend, hmachine, hobserved⟩ := runWith_eq_some_iff.1 hrun
    rw [hresult, Outcome.ending?_eq_error_iff] at hend
    obtain ⟨hafter, hprinted⟩ := after_succ_of_error hend
    refine ⟨n, hruns, hend, ?_⟩
    rw [← hafter, ← hprinted, ← hmachine, ← hresult]
    exact congrArg (Run.mk _ _) (Array.ext' hobserved)
  · rintro ⟨n, hruns, hfault, rfl⟩
    have hrun := hruns.runWith_eq_of_ending (Outcome.ending?_eq_error_iff.2 hfault)
      fun _ outcome => outcome.printed
    obtain ⟨hafter, hprinted⟩ := after_succ_of_error hfault
    rw [hafter] at hrun
    rw [← hprinted]
    exact ⟨hrun, rfl⟩

/-- **A fault changes nothing.** Whatever has been asked of a machine before, a command that fails
leaves the program counter, the registers and the memory as they were and prints nothing; it leaves
the execution state too, unless it is a step, after which the machine is faulted. The runs that fail
are the steps before a failing one, however many, and then the fault. -/
theorem fault_changes_nothing (m : Machine) :
    (∀ command reply failure, command ≠ .run → m.perform command = some reply →
      reply.result = .error failure →
        reply.machine = (if command = .step then { m with state := .faulted } else m) ∧
          reply.printed = []) ∧
    (∀ run fault, m.run = some run ∧ run.result = .error fault ↔
      ∃ n, m.RunsFor n ∧ (m.after n).step.result = .error fault ∧
        run = ⟨.error fault, { m.after n with state := .faulted }, (m.printedIn n).toArray⟩) :=
  ⟨fun _ _ _ hne hreply h => perform_error hne hreply h, fun _ _ => run_eq_error_iff⟩

/-- The program prints 8 and pushes with the stack pointer at zero. Run, it fails after three steps
and has printed 8; asked to push once more, the machine does not move. -/
theorem fault_changes_nothing_of_overflow :
    ∃ m, m = loaded [0x82, 0, 8, 0x47, 0, 0x82, 7, 0, 0x45, 0] ∧
      m.run = some ⟨.error (.stackOverflow 0), { m.after 3 with state := .faulted }, #[8]⟩ ∧
      ∃ reply, (m.after 3).perform (.push 8) = some reply ∧
        reply.result = .error (.fault (.stackOverflow 0)) ∧
        reply.machine = m.after 3 ∧ reply.printed = [] := by
  have hpush : (((loaded [0x82, 0, 8, 0x47, 0, 0x82, 7, 0, 0x45, 0]).after 3).perform
      (.push 8)).map (·.result) = some (.error (.fault (.stackOverflow 0))) := by
    decide +kernel
  obtain ⟨reply, hreply, hfails⟩ := Option.map_eq_some_iff.1 hpush
  refine ⟨_, rfl, ?_, reply, hreply, hfails, ?_⟩
  · have hruns : (loaded [0x82, 0, 8, 0x47, 0, 0x82, 7, 0, 0x45, 0]).RunsFor 3 := by
      decide +kernel
    have hfault : ((loaded [0x82, 0, 8, 0x47, 0, 0x82, 7, 0, 0x45, 0]).after 3).step.result =
        .error (.stackOverflow 0) := by
      decide +kernel
    have hprinted :
        (loaded [0x82, 0, 8, 0x47, 0, 0x82, 7, 0, 0x45, 0]).printedIn 3 = [8] := by
      decide +kernel
    have hrun := ((fault_changes_nothing _).2 _ _).2 ⟨3, hruns, hfault, rfl⟩
    rw [hprinted] at hrun
    exact hrun.1
  · exact (fault_changes_nothing _).1 (.push 8) reply _ (by decide) hreply hfails

end Machine

end ByteMachine
