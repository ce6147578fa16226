import ByteMachine.Proofs.History

/-!
# The stack in memory is a bounded stack

A bounded stack is a list, top first, that refuses a push when it is full. The machine keeps one in
memory: the list stands there from the stack pointer on, and the distance of the stack pointer from
where it stood when the stack was empty is the length of the list (`Machine.Holds`). Each push and
each pop answers as the list does and leaves the machine holding the list that comes of it
(`Holds.perform`), so any number of them do (`Holds.history`).

The capacity is the stack pointer of the empty stack, since a push moves it down by one and it
cannot pass zero. A pop of the empty stack is left out: the machine would answer with whatever stands
above the stack.
-/

namespace ByteMachine

/-! ## Bounded stacks -/

/-- A request to a stack. -/
inductive StackCall where
  | push (value : UInt8)
  | pop
  deriving DecidableEq, Repr

namespace StackCall

/-- The command that asks it of a machine. -/
def command : StackCall → Command
  | push value => .push value
  | pop => .pop

/-- What a stack of a capacity, top first, answers to a request, and the stack afterwards. An empty
stack is not asked for a pop. -/
def answer? (capacity : Nat) (stack : List UInt8) :
    StackCall → Option (Except Failure Answer × List UInt8)
  | push value =>
    if stack.length < capacity then some (.ok .done, value :: stack)
    else some (.error (.fault (.stackOverflow 0)), stack)
  | pop =>
    match stack with
    | [] => none
    | value :: rest => some (.ok (.value value), rest)

/-- What a stack answers to requests in a row, and the stack afterwards. -/
def answers? (capacity : Nat) (stack : List UInt8) :
    List StackCall → Option (List (Except Failure Answer) × List UInt8)
  | [] => some ([], stack)
  | call :: rest => do
    let (first, next) ← call.answer? capacity stack
    let (later, last) ← answers? capacity next rest
    return (first :: later, last)

theorem answers?_cons_eq_some {capacity : Nat} {stack last : List UInt8} {call : StackCall}
    {rest : List StackCall} {results : List (Except Failure Answer)}
    (h : answers? capacity stack (call :: rest) = some (results, last)) :
    ∃ first next later, call.answer? capacity stack = some (first, next) ∧
      answers? capacity next rest = some (later, last) ∧ results = first :: later := by
  obtain ⟨⟨first, next⟩, hfirst, htail⟩ := Option.bind_eq_some_iff.1 h
  obtain ⟨⟨later, last'⟩, hlater, hlast⟩ := Option.bind_eq_some_iff.1 htail
  cases hlast
  exact ⟨first, next, later, hfirst, hlater, rfl⟩

end StackCall

namespace Machine

/-! ## Pushing and popping -/

/-- The machine with a value pushed, given that there is room for it. -/
def pushed (m : Machine) (value : UInt8) : Machine :=
  { m with
    registers := m.registers.withSp (m.sp - 1)
    memory := m.memory.withCell (m.sp - 1) value }

/-- The machine with a value popped, given that the stack pointer can move up. -/
def popped (m : Machine) : Machine := { m with registers := m.registers.withSp (m.sp + 1) }

/-- A push on a machine either fails on its one check or has its effect. -/
theorem apply_push (m : Machine) (value : UInt8) :
    (Exec.push value).apply m = match Operation.overflow? m.sp with
      | some fault => ⟨.error fault, m, []⟩
      | none => ⟨.ok (), m.pushed value, []⟩ := by
  by_cases h : m.registers.sp = 0 <;>
    simp [Exec.apply, Exec.push_apply, Operation.overflow?, pushed, sp, h]

/-- So does a pop. -/
theorem apply_pop (m : Machine) :
    Exec.pop.apply m = match Operation.underflow? m.sp with
      | some fault => ⟨.error fault, m, []⟩
      | none => ⟨.ok (m.cell m.sp), m.popped, []⟩ := by
  by_cases h : m.registers.sp = 255
  · simp [Exec.apply, Exec.pop_apply, Operation.underflow?, sp, h]
  · simp [Exec.apply, Exec.pop_apply, Operation.underflow?, popped, sp, cell, h]

theorem perform_push_of_eq {m : Machine} (value : UInt8) (h : m.sp = 0) :
    m.perform (.push value) = some ⟨.error (.fault (.stackOverflow 0)), m, []⟩ := by
  simp [perform, apply_push, Outcome.reply, Operation.overflow?, h]

theorem perform_push_of_ne {m : Machine} (value : UInt8) (h : m.sp ≠ 0) :
    m.perform (.push value) = some ⟨.ok .done, m.pushed value, []⟩ := by
  simp [perform, apply_push, Outcome.reply, Operation.overflow?, h]

theorem perform_pop_of_ne {m : Machine} (h : m.sp ≠ 255) :
    m.perform .pop = some ⟨.ok (.value (m.cell m.sp)), m.popped, []⟩ := by
  simp [perform, apply_pop, Outcome.reply, Operation.underflow?, h]

@[simp] theorem sp_pushed (m : Machine) (value : UInt8) : (m.pushed value).sp = m.sp - 1 :=
  Registers.sp_withSp _ _

@[simp] theorem sp_popped (m : Machine) : m.popped.sp = m.sp + 1 := Registers.sp_withSp _ _

/-! ## A machine that holds a stack -/

/-- The machine `m` holds a stack that was begun, empty, on the machine `base`. Apart from the stack
pointer and the cells below where it was, the two machines are the same. -/
structure Holds (base m : Machine) (stack : List UInt8) : Prop where
  /-- The stack stands in memory, its top at the stack pointer. -/
  spells : m.memory.Spells m.sp.toNat stack
  depth : m.sp.toNat + stack.length = base.sp.toNat
  cell_eq : ∀ a, base.sp ≤ a → m.cell a = base.cell a
  reg_eq : ∀ r, r ≠ spIndex → m.reg r = base.reg r
  pc_eq : m.pc = base.pc
  state_eq : m.state = base.state

variable {base m : Machine} {stack : List UInt8}

/-- Every machine holds the empty stack. -/
theorem Holds.nil (m : Machine) : m.Holds m [] where
  spells := trivial
  depth := rfl
  cell_eq := fun _ _ => rfl
  reg_eq := fun _ _ => rfl
  pc_eq := rfl
  state_eq := rfl

/-- The stack is full when the stack pointer has come down to zero. -/
theorem Holds.sp_eq_zero_iff (h : base.Holds m stack) :
    m.sp = 0 ↔ ¬ stack.length < base.sp.toNat := by
  have hdepth := h.depth
  constructor
  · intro hsp
    rw [hsp] at hdepth
    have hzero : (0 : UInt8).toNat = 0 := rfl
    omega
  · intro hfull
    have hsp : m.sp.toNat = (0 : UInt8).toNat := by
      show m.sp.toNat = 0
      omega
    exact UInt8.toNat_inj.1 hsp

/-- A machine that holds something can move its stack pointer up. -/
theorem Holds.sp_ne_last {value : UInt8} (h : base.Holds m (value :: stack)) : m.sp ≠ 255 := by
  intro hsp
  have hdepth := h.depth
  rw [hsp, List.length_cons] at hdepth
  have hlast : (255 : UInt8).toNat = 255 := rfl
  have hbound : base.sp.toNat < 256 := base.sp.toNat_lt
  omega

theorem Holds.pushed (h : base.Holds m stack) (hsp : m.sp ≠ 0) (value : UInt8) :
    base.Holds (m.pushed value) (value :: stack) where
  spells := by
    have hbelow := toNat_sub_one hsp
    rw [sp_pushed]
    refine ⟨Memory.read_write_self (m.memory.write_toNat _ value), ?_⟩
    rw [hbelow]
    exact h.spells.withCell (fun i _ => by omega) value
  depth := by
    have hbelow := toNat_sub_one hsp
    have hdepth := h.depth
    rw [sp_pushed, List.length_cons]
    omega
  cell_eq := by
    intro a ha
    have hbelow := toNat_sub_one hsp
    have hdepth := h.depth
    have hle : base.sp.toNat ≤ a.toNat := UInt8.le_iff_toNat_le.1 ha
    -- The cell that is written is the next one below, so it is below where the stack was begun.
    have hne : a ≠ m.sp - 1 := by
      rintro rfl
      omega
    exact (Memory.cell_withCell_other m.memory value hne).trans (h.cell_eq a ha)
  reg_eq := by
    intro r hr
    refine Eq.trans ?_ (h.reg_eq r hr)
    show (m.registers.withSp (m.sp - 1)).reg r = m.registers.reg r
    rw [Registers.reg_withSp, if_neg hr]
  pc_eq := h.pc_eq
  state_eq := h.state_eq

theorem Holds.popped {value : UInt8} (h : base.Holds m (value :: stack)) :
    base.Holds m.popped stack where
  spells := by
    have habove := toNat_add_one h.sp_ne_last
    rw [sp_popped, habove]
    exact h.spells.2
  depth := by
    have habove := toNat_add_one h.sp_ne_last
    have hdepth := h.depth
    rw [List.length_cons] at hdepth
    rw [sp_popped]
    omega
  cell_eq := h.cell_eq
  reg_eq := by
    intro r hr
    refine Eq.trans ?_ (h.reg_eq r hr)
    show (m.registers.withSp (m.sp + 1)).reg r = m.registers.reg r
    rw [Registers.reg_withSp, if_neg hr]
  pc_eq := h.pc_eq
  state_eq := h.state_eq

/-- The top of the stack is in the cell at the stack pointer. -/
theorem Holds.cell_sp {value : UInt8} (h : base.Holds m (value :: stack)) :
    m.cell m.sp = value := by
  have hread := h.spells.1
  rw [Memory.read_toNat] at hread
  exact Except.ok.inj hread

/-! ## Answers -/

/-- A machine that holds a stack answers as the stack does, and then holds the stack afterwards. -/
theorem Holds.perform (h : base.Holds m stack) {call : StackCall}
    {result : Except Failure Answer} {next : List UInt8}
    (hanswer : call.answer? base.sp.toNat stack = some (result, next)) :
    ∃ reply, m.perform call.command = some reply ∧ reply.result = result ∧ reply.printed = [] ∧
      base.Holds reply.machine next := by
  cases call with
  | push value =>
    simp only [StackCall.answer?] at hanswer
    by_cases hroom : stack.length < base.sp.toNat
    · rw [if_pos hroom] at hanswer
      cases hanswer
      have hsp : m.sp ≠ 0 := fun hzero => h.sp_eq_zero_iff.1 hzero hroom
      exact ⟨_, perform_push_of_ne value hsp, rfl, rfl, h.pushed hsp value⟩
    · rw [if_neg hroom] at hanswer
      cases hanswer
      exact ⟨_, perform_push_of_eq value (h.sp_eq_zero_iff.2 hroom), rfl, rfl, h⟩
  | pop =>
    cases stack with
    | nil => cases hanswer
    | cons value rest =>
      cases hanswer
      refine ⟨_, perform_pop_of_ne h.sp_ne_last, ?_, rfl, h.popped⟩
      rw [h.cell_sp]

theorem Holds.history (h : base.Holds m stack) {calls : List StackCall}
    {results : List (Except Failure Answer)} {last : List UInt8}
    (hanswers : StackCall.answers? base.sp.toNat stack calls = some (results, last)) :
    ∃ replies machine, m.history (calls.map StackCall.command) = some (replies, machine) ∧
      replies.map (·.result) = results ∧ (∀ reply ∈ replies, reply.printed = []) ∧
      base.Holds machine last := by
  induction calls generalizing m stack results with
  | nil =>
    cases hanswers
    exact ⟨[], m, rfl, rfl, fun _ hmem => absurd hmem List.not_mem_nil, h⟩
  | cons call rest ih =>
    obtain ⟨first, next, later, hfirst, hlater, rfl⟩ := StackCall.answers?_cons_eq_some hanswers
    obtain ⟨reply, hreply, rfl, hquiet, hnext⟩ := h.perform hfirst
    obtain ⟨replies, machine, hhistory, rfl, hsilent, hlast⟩ := ih hnext hlater
    exact ⟨reply :: replies, machine, history_cons hreply hhistory, rfl,
      List.forall_mem_cons.2 ⟨hquiet, hsilent⟩, hlast⟩

/-- The cells of a stack, counted from its bottom. -/
theorem Holds.read_eq (h : base.Holds m stack) {i : Nat} {value : UInt8}
    (hi : stack.reverse[i]? = some value) :
    m.memory.read (base.sp.toNat - 1 - i) = .ok value := by
  have hlt : i < stack.length := by
    have := (List.getElem?_eq_some_iff.1 hi).1
    rwa [List.length_reverse] at this
  rw [List.getElem?_reverse hlt] at hi
  have hread := h.spells.read_eq hi
  have hdepth := h.depth
  have haddress : m.sp.toNat + (stack.length - 1 - i) = base.sp.toNat - 1 - i := by omega
  rwa [haddress] at hread

/-- **The stack in memory is a bounded stack.** Ask a machine for pushes and pops, never for a pop of
nothing. It answers as a list does whose capacity is the machine's stack pointer, and prints
nothing. Afterwards the stack pointer has moved down by the depth of the stack, whose elements stand
below where it was, from the bottom down. No cell from there on has changed, nor have the program
counter, the execution state and the other registers; and one more push of a full stack changes
nothing at all. -/
theorem stack_refines_list (m : Machine) (calls : List StackCall)
    (results : List (Except Failure Answer)) (stack : List UInt8)
    (h : StackCall.answers? m.sp.toNat [] calls = some (results, stack)) :
    ∃ replies last, m.history (calls.map StackCall.command) = some (replies, last) ∧
      replies.map (·.result) = results ∧ (∀ reply ∈ replies, reply.printed = []) ∧
      last.sp.toNat + stack.length = m.sp.toNat ∧
      (∀ i value, stack.reverse[i]? = some value →
        last.memory.read (m.sp.toNat - 1 - i) = .ok value) ∧
      (∀ a, m.sp ≤ a → last.cell a = m.cell a) ∧
      last.pc = m.pc ∧ last.state = m.state ∧ (∀ r, r ≠ spIndex → last.reg r = m.reg r) ∧
      (stack.length = m.sp.toNat → ∀ value,
        last.perform (.push value) = some ⟨.error (.fault (.stackOverflow 0)), last, []⟩) := by
  obtain ⟨replies, last, hhistory, hresults, hsilent, hlast⟩ := (Holds.nil m).history h
  refine ⟨replies, last, hhistory, hresults, hsilent, hlast.depth, fun _ _ hi => hlast.read_eq hi,
    hlast.cell_eq, hlast.pc_eq, hlast.state_eq, hlast.reg_eq, fun hfull value => ?_⟩
  have hnot : ¬ stack.length < m.sp.toNat := by
    rw [hfull]
    exact Nat.lt_irrefl _
  exact perform_push_of_eq value (hlast.sp_eq_zero_iff.2 hnot)

/-- A stack of capacity two: the third push is refused, and the next pop returns what the second one
stored. -/
theorem stack_refines_list_of_capacity_two :
    ∃ m : Machine, m.sp = 2 ∧
      StackCall.answers? m.sp.toNat [] [.push 5, .push 6, .push 7, .pop, .push 8] =
        some ([.ok .done, .ok .done, .error (.fault (.stackOverflow 0)), .ok (.value 6), .ok .done],
          [8, 5]) ∧
      ∃ replies last, m.history [.push 5, .push 6, .push 7, .pop, .push 8] = some (replies, last) ∧
        replies.map (·.result) =
          [.ok .done, .ok .done, .error (.fault (.stackOverflow 0)), .ok (.value 6), .ok .done] ∧
        last.sp.toNat + 2 = m.sp.toNat ∧ last.memory.read 1 = .ok 5 ∧ last.memory.read 0 = .ok 8 := by
  obtain ⟨m, hsp⟩ : ∃ m : Machine, m.sp = 2 :=
    ⟨{ initial with registers := Registers.empty.withSp 2 }, by decide⟩
  have hanswers : StackCall.answers? m.sp.toNat [] [.push 5, .push 6, .push 7, .pop, .push 8] =
      some ([.ok .done, .ok .done, .error (.fault (.stackOverflow 0)), .ok (.value 6), .ok .done],
        [8, 5]) := by
    rw [hsp]
    rfl
  obtain ⟨replies, last, hhistory, hresults, -, hdepth, hcells, -⟩ :=
    stack_refines_list m _ _ _ hanswers
  have hbottom := hcells 0 5 rfl
  have htop := hcells 1 8 rfl
  rw [hsp] at hbottom htop
  exact ⟨m, hsp, hanswers, replies, last, hhistory, hresults, hdepth, hbottom, htop⟩

end Machine

end ByteMachine
