import ByteMachine.Command
import ByteMachine.Proofs.Iteration

/-!
# Histories

`Machine.history` gives a machine a list of commands, each to the machine that the one before left,
whatever that one came to. A machine is `Reachable` if some history of the initial machine ends with
it. What every command keeps, every history keeps (`history_keeps`), so an invariant of reachable
machines is proved of one command.

Most commands have nothing to do with control: they move neither the program counter nor the
execution state. This is proved where the command is put together, of the pieces it consists of
(`Exec.KeepsControl`), and leaves three commands to look at, `step`, `run` and `reset`
(`perform_control`).
-/

namespace ByteMachine

namespace Exec

variable {α β : Type}

/-- The execution that a computation leaves, in a value or in a fault. -/
def left (x : Exec α) (e : Execution) : Execution :=
  match x e with
  | .ok _ e' => e'
  | .error _ e' => e'

/-- The computation leaves the program counter and the execution state as they were. -/
def KeepsControl (x : Exec α) : Prop := ∀ e, (x.left e).pc = e.pc ∧ (x.left e).state = e.state

/-! ## Putting computations together -/

theorem keepsControl_get : KeepsControl (get : Exec Execution) := fun _ => ⟨rfl, rfl⟩

theorem keepsControl_throw (fault : Fault) : KeepsControl (throw fault : Exec α) :=
  fun _ => ⟨rfl, rfl⟩

theorem keepsControl_ofExcept (x : Except Fault α) : KeepsControl (ofExcept x) := by
  cases x with
  | ok value => exact fun _ => ⟨rfl, rfl⟩
  | error fault => exact keepsControl_throw fault

theorem keepsControl_modify {f : Execution → Execution} (hpc : ∀ e, (f e).pc = e.pc)
    (hstate : ∀ e, (f e).state = e.state) : KeepsControl (modify f) :=
  fun e => ⟨hpc e, hstate e⟩

theorem KeepsControl.bind {x : Exec α} {f : α → Exec β} (hx : x.KeepsControl)
    (hf : ∀ a, (f a).KeepsControl) : (x >>= f).KeepsControl := by
  intro e
  have hfirst := hx e
  unfold left at hfirst ⊢
  rw [bind_apply]
  cases h : x e with
  | error fault e' =>
    rw [h] at hfirst
    exact hfirst
  | ok a e' =>
    rw [h] at hfirst
    have hsecond := hf a e'
    exact ⟨hsecond.1.trans hfirst.1, hsecond.2.trans hfirst.2⟩

/-! ## What the commands consist of -/

theorem keepsControl_readByte (address : Nat) : KeepsControl (readByte address) :=
  keepsControl_get.bind fun _ => keepsControl_ofExcept _

theorem keepsControl_writeByte (address : Nat) (value : UInt8) :
    KeepsControl (writeByte address value) :=
  keepsControl_get.bind fun _ => (keepsControl_ofExcept _).bind fun _ =>
    keepsControl_modify (fun _ => rfl) fun _ => rfl

theorem keepsControl_readRegister (index : UInt8) : KeepsControl (readRegister index) :=
  keepsControl_get.bind fun _ => keepsControl_ofExcept _

theorem keepsControl_writeRegister (index value : UInt8) :
    KeepsControl (writeRegister index value) :=
  keepsControl_get.bind fun _ => (keepsControl_ofExcept _).bind fun _ =>
    keepsControl_modify (fun _ => rfl) fun _ => rfl

theorem keepsControl_sp : KeepsControl sp := fun _ => ⟨rfl, rfl⟩

theorem keepsControl_setSp (value : UInt8) : KeepsControl (setSp value) :=
  keepsControl_modify (fun _ => rfl) fun _ => rfl

theorem keepsControl_load (bytes : List UInt8) : KeepsControl (load bytes) :=
  keepsControl_get.bind fun _ => (keepsControl_ofExcept _).bind fun _ =>
    keepsControl_modify (fun _ => rfl) fun _ => rfl

theorem keepsControl_below (sp : UInt8) : KeepsControl (below sp) := by
  unfold below
  split
  · exact keepsControl_throw _
  · exact fun _ => ⟨rfl, rfl⟩

theorem keepsControl_above (sp : UInt8) : KeepsControl (above sp) := by
  unfold above
  split
  · exact keepsControl_throw _
  · exact fun _ => ⟨rfl, rfl⟩

theorem keepsControl_push (value : UInt8) : KeepsControl (push value) := by
  unfold push
  refine keepsControl_sp.bind fun _ => (keepsControl_below _).bind fun _ => ?_
  exact (keepsControl_writeByte _ value).bind fun _ => keepsControl_setSp _

theorem keepsControl_pop : KeepsControl pop := by
  unfold pop
  refine keepsControl_sp.bind fun _ => (keepsControl_readByte _).bind fun _ => ?_
  refine (keepsControl_above _).bind fun _ => (keepsControl_setSp _).bind fun _ => ?_
  exact fun _ => ⟨rfl, rfl⟩

theorem keepsControl_alu (i : Instruction) (a b : UInt8) : KeepsControl (alu i a b) := by
  unfold alu
  split
  · exact keepsControl_throw _
  · refine (keepsControl_readRegister a).bind fun _ => (keepsControl_readRegister b).bind fun _ => ?_
    exact keepsControl_writeRegister a _

/-- The reply to a command that is such a computation. -/
theorem KeepsControl.reply {x : Exec α} (hx : x.KeepsControl) (m : Machine) (answer : α → Answer) :
    ((x.apply m).reply answer).machine.pc = m.pc ∧
      ((x.apply m).reply answer).machine.state = m.state := by
  have h := hx ⟨m, []⟩
  unfold left at h
  unfold apply
  cases he : x ⟨m, []⟩ with
  | ok value e =>
    rw [he] at h
    exact h
  | error fault e =>
    rw [he] at h
    exact h

end Exec

namespace Machine

/-! ## Control -/

/-- Only a step, a run and a reset move the program counter or change the execution state. -/
theorem perform_control {m : Machine} {command : Command} {reply : Reply}
    (hreply : m.perform command = some reply) (hstep : command ≠ .step) (hrun : command ≠ .run)
    (hreset : command ≠ .reset) : reply.machine.pc = m.pc ∧ reply.machine.state = m.state := by
  cases command with
  | reset => exact absurd rfl hreset
  | step => exact absurd rfl hstep
  | run => exact absurd rfl hrun
  | load bytes =>
    cases hreply
    exact (Exec.keepsControl_load bytes).reply m _
  | loadSource source =>
    rw [perform] at hreply
    split at hreply
    · cases hreply
      exact (Exec.keepsControl_load _).reply m _
    · cases hreply
      exact ⟨rfl, rfl⟩
  | readByte address =>
    cases hreply
    exact (Exec.keepsControl_readByte address).reply m _
  | writeByte address value =>
    cases hreply
    exact (Exec.keepsControl_writeByte address value).reply m _
  | readRegister index =>
    cases hreply
    exact (Exec.keepsControl_readRegister index).reply m _
  | writeRegister index value =>
    cases hreply
    exact (Exec.keepsControl_writeRegister index value).reply m _
  | push value =>
    cases hreply
    exact (Exec.keepsControl_push value).reply m _
  | pop =>
    cases hreply
    exact Exec.keepsControl_pop.reply m _
  | alu i a b =>
    cases hreply
    exact (Exec.keepsControl_alu i a b).reply m _

/-- A run leaves the machine after some steps. -/
theorem perform_run {m : Machine} {reply : Reply} (h : m.perform .run = some reply) :
    ∃ n, reply.machine = m.after n := by
  obtain ⟨run, hrun, rfl⟩ := Option.map_eq_some_iff.1 h
  obtain ⟨n, -, -, hmachine, -⟩ := runWith_eq_some hrun
  exact ⟨n + 1, hmachine⟩

/-! ## Histories -/

/-- The replies to a list of commands, in order, and the machine that the last of them leaves. There
is no such machine if one of the commands is a run that never ends. -/
def history (m : Machine) : List Command → Option (List Reply × Machine)
  | [] => some ([], m)
  | command :: rest => do
    let reply ← m.perform command
    let (replies, last) ← reply.machine.history rest
    return (reply :: replies, last)

theorem history_cons_eq_some {m last : Machine} {command : Command} {rest : List Command}
    {replies : List Reply} (h : m.history (command :: rest) = some (replies, last)) :
    ∃ reply later, m.perform command = some reply ∧
      reply.machine.history rest = some (later, last) ∧ replies = reply :: later := by
  obtain ⟨reply, hreply, htail⟩ := Option.bind_eq_some_iff.1 h
  obtain ⟨⟨later, last'⟩, hrest, hlast⟩ := Option.bind_eq_some_iff.1 htail
  cases hlast
  exact ⟨reply, later, hreply, hrest, rfl⟩

theorem history_cons {m last : Machine} {command : Command} {rest : List Command} {reply : Reply}
    {replies : List Reply} (hreply : m.perform command = some reply)
    (hrest : reply.machine.history rest = some (replies, last)) :
    m.history (command :: rest) = some (reply :: replies, last) := by
  rw [history, hreply]
  show (reply.machine.history rest).bind _ = _
  rw [hrest]
  rfl

/-- A history may be followed up to its last command. -/
theorem history_concat_eq_some {m last : Machine} {commands : List Command} {command : Command}
    {replies : List Reply} (h : m.history (commands ++ [command]) = some (replies, last)) :
    ∃ earlier m' reply, m.history commands = some (earlier, m') ∧
      m'.perform command = some reply ∧ replies = earlier ++ [reply] ∧ last = reply.machine := by
  induction commands generalizing m replies with
  | nil =>
    obtain ⟨reply, later, hreply, hrest, rfl⟩ := history_cons_eq_some h
    cases hrest
    exact ⟨[], m, reply, rfl, hreply, rfl, rfl⟩
  | cons first rest ih =>
    obtain ⟨answer, later, hanswer, hrest, rfl⟩ := history_cons_eq_some h
    obtain ⟨earlier, m', reply, hearlier, hreply, rfl, rfl⟩ := ih hrest
    exact ⟨answer :: earlier, m', reply, history_cons hanswer hearlier, hreply, rfl, rfl⟩

/-- Every command of a history has its reply. -/
theorem length_of_history {m last : Machine} {commands : List Command} {replies : List Reply}
    (h : m.history commands = some (replies, last)) : replies.length = commands.length := by
  induction commands generalizing m replies with
  | nil =>
    cases h
    rfl
  | cons command rest ih =>
    obtain ⟨reply, later, -, hrest, rfl⟩ := history_cons_eq_some h
    rw [List.length_cons, List.length_cons, ih hrest]

/-- A machine that commands lead to from the initial one. -/
def Reachable (m : Machine) : Prop :=
  ∃ commands replies, initial.history commands = some (replies, m)

/-- A history of the initial machine can be evaluated to find a reachable machine. -/
theorem exists_reachable {p : Machine → Bool} (commands : List Command)
    (h : (initial.history commands).any (fun ended => p ended.2) = true) :
    ∃ m : Machine, m.Reachable ∧ p m = true := by
  obtain ⟨⟨replies, m⟩, hhistory, hm⟩ := (Option.any_eq_true _ _).1 h
  exact ⟨m, ⟨commands, replies, hhistory⟩, hm⟩

/-- What every command keeps, every history keeps. -/
theorem history_keeps {P : Machine → Prop}
    (hkeeps : ∀ m command reply, P m → m.perform command = some reply → P reply.machine)
    {m last : Machine} {commands : List Command} {replies : List Reply} (hm : P m)
    (h : m.history commands = some (replies, last)) : P last := by
  induction commands generalizing m replies with
  | nil =>
    cases h
    exact hm
  | cons command rest ih =>
    obtain ⟨reply, later, hreply, hrest, -⟩ := history_cons_eq_some h
    exact ih (hkeeps m command reply hm hreply) hrest

/-- What the initial machine has and every command keeps, every reachable machine has. -/
theorem Reachable.induction {P : Machine → Prop} (hinitial : P initial)
    (hkeeps : ∀ m command reply, P m → m.perform command = some reply → P reply.machine)
    {m : Machine} (h : m.Reachable) : P m := by
  obtain ⟨commands, replies, hcommands⟩ := h
  exact history_keeps hkeeps hinitial hcommands

end Machine

end ByteMachine
