import ByteMachine.Proofs.History
import Mathlib.Data.List.Induction

/-!
# What the execution state tells

The execution state is written in several places: when execution begins, when a step halts, when a
step fails, and by a reset. All of it comes to one thing. A machine is in the state that its latest
step or run has left it in, and what that was can be read off the reply (`ToldBy`); before the first
of them, and after a reset, it is halted. No other command has a part in it, in whatever order the
commands come and however many of them fail.

`latestDrive` is that step or run, looked up in the record of a history, which is the list of its
commands each with its reply. It is followed along a history from the front to the back, one command
at a time (`latestDrive_concat`, `history_concat_eq_some`).
-/

namespace ByteMachine

/-- The command makes the machine execute. -/
def Command.Drives (command : Command) : Prop := command = .step ∨ command = .run

instance (command : Command) : Decidable command.Drives :=
  inferInstanceAs (Decidable (command = .step ∨ command = .run))

/-! ## The latest step or run -/

/-- The latest step or run in a record of commands and their replies, if there is one since the
machine was created or last reset. -/
def latestDrive (record : List (Command × Reply)) : Option (Command × Reply) :=
  (record.reverse.takeWhile fun entry => entry.1 ≠ .reset).find? fun entry => entry.1.Drives

/-- A reset is the end of what was before, a step or a run takes its place, and no other command
matters. -/
theorem latestDrive_concat (record : List (Command × Reply)) (command : Command) (reply : Reply) :
    latestDrive (record ++ [(command, reply)]) =
      if command = .reset then none
      else if command.Drives then some (command, reply) else latestDrive record := by
  by_cases hreset : command = .reset
  · simp [latestDrive, hreset]
  · by_cases hdrives : command.Drives <;> simp [latestDrive, hreset, hdrives]

/-! ## The state after a step or a run -/

/-- The execution state is the one that the reply to a step or a run tells: faulted exactly if there
is a failure in it, halted exactly if it is a run that is done or a step that has come to a halt, and
running exactly if it is a step that goes on. -/
structure ToldBy (command : Command) (reply : Reply) (state : State) : Prop where
  faulted_iff : state = .faulted ↔ ∃ failure, reply.result = .error failure
  halted_iff : state = .halted ↔
    command = .run ∧ reply.result = .ok .done ∨ command = .step ∧ reply.result = .ok (.state .halted)
  running_iff : state = .running ↔ command = .step ∧ reply.result = .ok (.state .running)

theorem ToldBy.of_error {command : Command} {reply : Reply} {failure : Failure}
    (h : reply.result = .error failure) : ToldBy command reply .faulted := by
  constructor <;> simp [h]

theorem ToldBy.of_state {reply : Reply} {state : State} (h : reply.result = .ok (.state state))
    (hstate : state ≠ .faulted) : ToldBy .step reply state := by
  constructor <;> simp [h, hstate]

theorem ToldBy.of_done {reply : Reply} (h : reply.result = .ok .done) :
    ToldBy .run reply .halted := by
  constructor <;> simp [h]

theorem Outcome.reply_of_ok {α : Type} {outcome : Outcome α} {value : α}
    (h : outcome.result = .ok value) (answer : α → Answer) :
    (outcome.reply answer).result = .ok (answer value) := by
  rw [reply, h]

theorem Outcome.reply_of_error {α : Type} {outcome : Outcome α} {fault : Fault}
    (h : outcome.result = .error fault) (answer : α → Answer) :
    (outcome.reply answer).result = .error (.fault fault) := by
  rw [reply, h]

namespace Machine

/-- A step that succeeds leaves the machine in the state that it returns, which is not the faulted
one; a step that fails leaves it faulted. -/
theorem step_state (m : Machine) :
    (∃ s, m.step.result = .ok s ∧ s ≠ .faulted ∧ m.step.machine.state = s) ∨
    ∃ fault, m.step.result = .error fault ∧ m.step.machine.state = .faulted := by
  rcases step_cases m with ⟨o, -, -, hstep⟩ | ⟨fault, hstep⟩
  · refine .inl ⟨o.stateAfter, ?_, ?_, ?_⟩
    · rw [hstep]
    · cases o <;> exact nofun
    · rw [hstep]
      rfl
  · refine .inr ⟨fault, ?_, ?_⟩
    · rw [hstep]
    · rw [hstep]

theorem toldBy_step {m : Machine} {reply : Reply} (h : m.perform .step = some reply) :
    ToldBy .step reply reply.machine.state := by
  obtain rfl : m.step.reply .state = reply := Option.some.inj h
  show ToldBy .step (m.step.reply .state) m.step.machine.state
  rcases step_state m with ⟨s, hok, hne, hs⟩ | ⟨fault, herror, hs⟩
  · rw [hs]
    exact .of_state (Outcome.reply_of_ok hok _) hne
  · rw [hs]
    exact .of_error (Outcome.reply_of_error herror _)

/-- The step that ends a run leaves the machine in a state that tells how. -/
theorem state_of_ending {m : Machine} {result : Except Fault Unit}
    (hend : m.step.ending? = some result) :
    (result = .ok () ∧ m.step.machine.state = .halted) ∨
    ∃ fault, result = .error fault ∧ m.step.machine.state = .faulted := by
  rcases step_state m with ⟨s, hok, hne, hs⟩ | ⟨fault, herror, hs⟩
  · rw [Outcome.ending?, hok] at hend
    cases s with
    | running => cases hend
    | faulted => exact absurd rfl hne
    | halted =>
      cases hend
      exact .inl ⟨rfl, hs⟩
  · rw [Outcome.ending?_eq_error_iff.2 herror] at hend
    cases hend
    exact .inr ⟨fault, rfl, hs⟩

theorem toldBy_run {m : Machine} {reply : Reply} (h : m.perform .run = some reply) :
    ToldBy .run reply reply.machine.state := by
  obtain ⟨run, hrun, rfl⟩ := Option.map_eq_some_iff.1 h
  obtain ⟨n, -, hend, hmachine, -⟩ := runWith_eq_some hrun
  show ToldBy .run _ run.machine.state
  rw [hmachine]
  rcases state_of_ending hend with ⟨hdone, hs⟩ | ⟨fault, hfault, hs⟩
  · rw [after, hs]
    exact .of_done (Outcome.reply_of_ok hdone _)
  · rw [after, hs]
    exact .of_error (Outcome.reply_of_error hfault _)

/-! ## Histories -/

/-- What the record of a history tells of the execution state. -/
def StateFollows (record : List (Command × Reply)) (state : State) : Prop :=
  match latestDrive record with
  | none => state = .halted
  | some (command, reply) => ToldBy command reply state

/-- One more command keeps the execution state in step with the record. -/
theorem StateFollows.perform {m : Machine} {record : List (Command × Reply)} {command : Command}
    {reply : Reply} (h : StateFollows record m.state) (hreply : m.perform command = some reply) :
    StateFollows (record ++ [(command, reply)]) reply.machine.state := by
  rw [StateFollows, latestDrive_concat]
  by_cases hreset : command = .reset
  · subst hreset
    cases hreply
    rfl
  rw [if_neg hreset]
  by_cases hdrives : command.Drives
  · rw [if_pos hdrives]
    rcases hdrives with rfl | rfl
    · exact toldBy_step hreply
    · exact toldBy_run hreply
  · obtain ⟨hstep, hrun⟩ := not_or.1 hdrives
    rw [if_neg hdrives, (perform_control hreply hstep hrun hreset).2]
    exact h

theorem StateFollows.history {commands : List Command} {replies : List Reply} {last : Machine}
    (h : initial.history commands = some (replies, last)) :
    StateFollows (commands.zip replies) last.state := by
  -- The record grows at its end, so the commands are taken from there.
  induction commands using List.reverseRecOn generalizing replies last with
  | nil =>
    cases h
    rfl
  | append_singleton commands command ih =>
    obtain ⟨earlier, m, reply, hearlier, hreply, rfl, rfl⟩ := history_concat_eq_some h
    rw [List.zip_append (length_of_history hearlier).symm]
    exact (ih hearlier).perform hreply

/-- **The execution state tells the latest step or run.** Only a step, a run and a reset move the
program counter or change the execution state; any other command leaves both alone, also where it
fails. After a list of commands to the initial machine, whatever they came to, the machine is halted
if it has not been stepped or run since it was created or last reset, and otherwise it is in the state
that the reply to the latest step or run tells. No step returns the faulted state. -/
theorem state_tells_latest_drive :
    (∀ m command reply, Machine.perform m command = some reply → command ≠ .step →
      command ≠ .run → command ≠ .reset →
        reply.machine.pc = m.pc ∧ reply.machine.state = m.state) ∧
    (∀ commands replies last, initial.history commands = some (replies, last) →
      (latestDrive (commands.zip replies) = none → last.state = .halted) ∧
      ∀ command reply, latestDrive (commands.zip replies) = some (command, reply) →
        ToldBy command reply last.state) ∧
    ∀ m : Machine, m.step.result ≠ .ok .faulted := by
  refine ⟨fun m command reply hreply => perform_control hreply, ?_, ?_⟩
  · intro commands replies last h
    have hfollows := StateFollows.history h
    rw [StateFollows] at hfollows
    constructor
    · intro hnone
      rwa [hnone] at hfollows
    · intro command reply hsome
      rwa [hsome] at hfollows
  · intro m hfaulted
    rcases step_state m with ⟨s, hok, hne, -⟩ | ⟨fault, herror, -⟩
    · rw [hok] at hfaulted
      exact hne (Except.ok.inj hfaulted)
    · rw [herror] at hfaulted
      cases hfaulted

/-- The run meets a byte that is no opcode, and there is no register 8 to write to: the machine is
faulted by the run and stays so. With a reset between the two it is halted, and the failing write does
not change that. -/
theorem state_tells_latest_drive_of_unknown_opcode :
    (∃ replies last reply, initial.history [.load [0x82, 0, 8, 0], .step, .run, .writeRegister 8 0] =
        some (replies, last) ∧
      latestDrive (List.zip [.load [0x82, 0, 8, 0], .step, .run, .writeRegister 8 0] replies) =
        some (.run, reply) ∧
      reply.result = .error (.fault (.unknownOpcode 0 3)) ∧ last.state = .faulted) ∧
    ∃ replies last, initial.history [.load [0x82, 0, 8, 0], .run, .reset, .writeRegister 8 0] =
        some (replies, last) ∧ last.state = .halted := by
  constructor
  · have hends : (initial.history [.load [0x82, 0, 8, 0], .step, .run, .writeRegister 8 0]).map
        (fun ended => (latestDrive (List.zip [.load [0x82, 0, 8, 0], .step, .run,
          .writeRegister 8 0] ended.1)).map fun entry => (entry.1, entry.2.result)) =
        some (some (.run, .error (.fault (.unknownOpcode 0 3)))) := by
      decide +kernel
    obtain ⟨⟨replies, last⟩, hhistory, hlatest⟩ := Option.map_eq_some_iff.1 hends
    obtain ⟨⟨command, reply⟩, hlatest, hentry⟩ := Option.map_eq_some_iff.1 hlatest
    obtain ⟨rfl, hresult⟩ := Prod.mk.inj hentry
    have htold := (state_tells_latest_drive.2.1 _ _ _ hhistory).2 _ _ hlatest
    exact ⟨replies, last, reply, hhistory, hlatest, hresult, htold.faulted_iff.2 ⟨_, hresult⟩⟩
  · have hends : (initial.history [.load [0x82, 0, 8, 0], .run, .reset, .writeRegister 8 0]).map
        (fun ended => (latestDrive (List.zip [.load [0x82, 0, 8, 0], .run, .reset,
          .writeRegister 8 0] ended.1)).isNone) = some true := by
      decide +kernel
    obtain ⟨⟨replies, last⟩, hhistory, hnone⟩ := Option.map_eq_some_iff.1 hends
    have hhalted := (state_tells_latest_drive.2.1 _ _ _ hhistory).1 (Option.isNone_iff_eq_none.1 hnone)
    exact ⟨replies, last, hhistory, hhalted⟩

end Machine

end ByteMachine
