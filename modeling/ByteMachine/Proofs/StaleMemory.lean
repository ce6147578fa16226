import ByteMachine.Proofs.LastStore
import Mathlib.Data.Set.Basic

/-!
# Memory that is not looked at

Loading a program overwrites the beginning of memory and leaves the rest as it was, so a program may
find in memory what another one has left there. It cannot tell, unless it looks. A step looks at the
opcode and the operands that it fetches and, if it is a pop or a return, at the top of the stack
(`Reads`); nothing else of memory decides what it does.

Two machines `AgreeOn` a set of cells if they have the same program counter and registers and each of
these cells holds the same in both. A step that looks only at such cells has one outcome for both, but
for the memory, and afterwards they also agree on the cell that it stores in (`AgreeOn.step`). So the
cells that two machines agree on only become more: those on which they agreed at first, and those that
have been written since (`known`).
-/

namespace ByteMachine

namespace Operation

/-- The operation looks at the top of the stack. A return does, and so does a pop into a register that
exists. -/
def ReadsTop : Operation → Prop
  | .pop r => r < 8
  | .ret => True
  | .hlt | .ldi .. | .prn _ | .add .. | .mul .. | .push _ | .call _ => False

variable {m m' : Machine} {o : Operation}

/-- An operation that can be executed and takes something from the stack looks at its top. -/
theorem readsTop_pop {r : UInt8} (h : (pop r).fault? m = none) : (pop r).ReadsTop :=
  (fault?_pop_eq_none_iff.1 h).1

/-! ## What an operation depends on -/

theorem fault?_congr (hpc : m'.pc = m.pc) (hregisters : m'.registers = m.registers)
    (htop : o.ReadsTop → m'.cell m.sp = m.cell m.sp) : o.fault? m' = o.fault? m := by
  have hsp : m'.sp = m.sp := congrArg Registers.sp hregisters
  cases o with
  | hlt | ldi | prn | add | mul => rfl
  | push r | ret => simp only [fault?, stackFault?, hsp]
  | call r => simp only [fault?, stackFault?, hsp, hpc]
  | pop r =>
    by_cases hr : r < 8
    · have hcell : m'.cell m.sp = m.cell m.sp := htop hr
      simp only [fault?, stackFault?, hsp, hcell]
    · -- The register is refused before the stack is looked at.
      simp [fault?, registerFault?, hr]

theorem emits_congr (hregisters : m'.registers = m.registers) : o.emits m' = o.emits m := by
  cases o with
  | prn r => simp only [emits, Machine.reg, hregisters]
  | hlt | ldi | add | mul | push | pop | call | ret => rfl

theorem pcAfter_congr (hpc : m'.pc = m.pc) (hregisters : m'.registers = m.registers)
    (htop : o.ReadsTop → m'.cell m.sp = m.cell m.sp) : o.pcAfter m' = o.pcAfter m := by
  have hsp : m'.sp = m.sp := congrArg Registers.sp hregisters
  cases o with
  | hlt | ldi | prn | add | mul | push | pop => simp only [pcAfter, hpc]
  | call r => simp only [pcAfter, Machine.reg, hregisters]
  | ret => simp only [pcAfter, hsp, htop trivial]

theorem registersAfter_congr (hregisters : m'.registers = m.registers)
    (hfault : o.fault? m = none) (htop : o.ReadsTop → m'.cell m.sp = m.cell m.sp) :
    o.registersAfter m' = o.registersAfter m := by
  have hsp : m'.sp = m.sp := congrArg Registers.sp hregisters
  cases o with
  | hlt | ldi | prn | add | mul => simp only [registersAfter, Machine.reg, hregisters]
  | push | call | ret => simp only [registersAfter, hregisters, hsp]
  | pop r =>
    have hcell : m'.cell m.sp = m.cell m.sp := htop (readsTop_pop hfault)
    simp only [registersAfter, hregisters, hsp, hcell]

end Operation

namespace Machine

/-- The next step looks at the cell. -/
inductive Reads (m : Machine) : UInt8 → Prop
  /-- It fetches the opcode. -/
  | opcode {a : UInt8} (ha : a.toNat = m.pc) : Reads m a
  /-- It fetches an operand of the instruction. -/
  | operand {a : UInt8} {i : Instruction} {k : Nat} (hi : m.memory.read m.pc = .ok i.opcode)
      (hpos : 0 < k) (hk : k ≤ i.operands.length) (ha : a.toNat = m.pc + k) : Reads m a
  /-- It takes something from the stack. -/
  | top {o : Operation} (ho : m.PointsAt o) (htop : o.ReadsTop) : Reads m m.sp

/-- A step at an operation looks at the bytes of the operation, and at the top of the stack if the
operation does. -/
theorem PointsAt.reads {m : Machine} {o : Operation} {a : UInt8} (ho : m.PointsAt o)
    (h : m.Reads a) : a.toNat < m.pc + o.instruction.width ∨ o.ReadsTop ∧ a = m.sp := by
  cases h with
  | opcode ha =>
    refine .inl ?_
    rw [ha, Instruction.width]
    omega
  | @operand _ i k hi hpos hk ha =>
    have hopcode : i = o.instruction := by
      have hbyte : Instruction.opcode i = o.instruction.opcode :=
        Except.ok.inj (hi.symm.trans ho.1)
      have hdecode := Instruction.decode?_opcode i
      rw [hbyte, Instruction.decode?_opcode] at hdecode
      exact (Option.some.inj hdecode).symm
    subst hopcode
    refine .inl ?_
    rw [ha, Instruction.width]
    omega
  | top hp htop =>
    obtain rfl := ho.unique hp
    exact .inr ⟨htop, rfl⟩

/-! ## Machines that agree -/

/-- Two machines with the same program counter and registers, and with the same bytes in some cells.
Nothing is said of the other cells, or of the execution state. -/
structure AgreeOn (cells : Set UInt8) (m m' : Machine) : Prop where
  pc : m'.pc = m.pc
  registers : m'.registers = m.registers
  cell : ∀ a ∈ cells, m'.cell a = m.cell a

/-- Two outcomes of a step that differ in memory at most. -/
structure SameBesidesMemory (outcome outcome' : Outcome State) : Prop where
  result : outcome'.result = outcome.result
  printed : outcome'.printed = outcome.printed
  pc : outcome'.machine.pc = outcome.machine.pc
  state : outcome'.machine.state = outcome.machine.state
  registers : outcome'.machine.registers = outcome.machine.registers

variable {m m' : Machine} {cells : Set UInt8}

/-- Machines into which the same program has been loaded agree on the cells that it takes up. -/
theorem agreeOn_of_load {old old' : Memory} {bytes : List UInt8} (hpc : m'.pc = m.pc)
    (hregisters : m'.registers = m.registers) (hload : old.load bytes = .ok m.memory)
    (hload' : old'.load bytes = .ok m'.memory) :
    AgreeOn {a | bytes.length ≤ a.toNat}ᶜ m m' := by
  refine ⟨hpc, hregisters, fun a ha => ?_⟩
  have hlt : a.toNat < bytes.length := Nat.lt_of_not_le ha
  have hbyte : bytes[a.toNat]? = some bytes[a.toNat] := List.getElem?_eq_getElem hlt
  have hread := (Memory.spells_of_load hload).read_eq hbyte
  have hread' := (Memory.spells_of_load hload').read_eq hbyte
  rw [Nat.zero_add, Memory.read_toNat] at hread hread'
  exact Except.ok.inj (hread'.trans hread.symm)

theorem AgreeOn.read_eq (h : AgreeOn cells m m') {address : Nat}
    (hcells : ∀ a : UInt8, a.toNat = address → a ∈ cells) :
    m'.memory.read address = m.memory.read address := by
  rcases Nat.lt_or_ge address memorySize with hlt | hge
  · obtain ⟨a, rfl⟩ : ∃ a : UInt8, a.toNat = address := ⟨_, UInt8.toNat_ofNat_of_lt' hlt⟩
    rw [Memory.read_toNat, Memory.read_toNat]
    exact congrArg _ (h.cell a (hcells a rfl))
  · rw [Memory.read_of_le hge, Memory.read_of_le hge]

/-- An instruction whose operands are the same forms the same operation. -/
theorem complete_congr {i : Instruction}
    (h : ∀ k, 0 < k → k ≤ i.operands.length → m'.operand k = m.operand k) :
    m'.complete i = m.complete i := by
  cases i with
  | hlt | ret => rfl
  | prn | push | pop | call => rw [complete, complete, h 1 Nat.one_pos (by decide)]
  | ldi | add | mul =>
    rw [complete, complete, h 1 Nat.one_pos (by decide), h 2 Nat.two_pos (by decide)]

/-- What is fetched depends on nothing but the cells that are looked at. -/
theorem AgreeOn.fetch_eq (h : AgreeOn cells m m') (hreads : ∀ a, m.Reads a → a ∈ cells) :
    m'.fetch = m.fetch := by
  have hopcode : m'.memory.read m'.pc = m.memory.read m.pc := by
    rw [h.pc]
    exact h.read_eq fun a ha => hreads a (.opcode ha)
  cases hread : m.memory.read m.pc with
  | error fault =>
    rw [hread] at hopcode
    rw [fetch, fetch, hread, hopcode]
    rfl
  | ok byte =>
    rw [hread] at hopcode
    cases hdecode : Instruction.decode? byte with
    | none =>
      rw [fetch_of_decode_none hread hdecode, fetch_of_decode_none hopcode hdecode, h.pc]
    | some i =>
      rw [fetch_of_decode_some hread hdecode, fetch_of_decode_some hopcode hdecode]
      obtain rfl := Instruction.decode?_eq_some_iff.1 hdecode
      refine complete_congr fun k hpos hk => ?_
      rw [operand, operand, h.pc]
      exact h.read_eq fun a ha => hreads a (.operand hread hpos hk ha)

/-! ## One step -/

/-- What a step comes to depends on nothing but the cells that it looks at. -/
theorem AgreeOn.sameBesidesMemory (h : AgreeOn cells m m') (hreads : ∀ a, m.Reads a → a ∈ cells) :
    SameBesidesMemory m.step m'.step := by
  have hfetch := h.fetch_eq hreads
  cases hf : m.fetch with
  | error fault =>
    rw [hf] at hfetch
    rw [step_of_fetch_error hf, step_of_fetch_error hfetch]
    exact ⟨rfl, rfl, h.pc, rfl, h.registers⟩
  | ok o =>
    rw [hf] at hfetch
    have ho := fetch_eq_ok_iff.1 hf
    have htop : o.ReadsTop → m'.cell m.sp = m.cell m.sp := fun hread =>
      h.cell m.sp (hreads m.sp (.top ho hread))
    rw [step_of_pointsAt ho, step_of_pointsAt (fetch_eq_ok_iff.1 hfetch),
      Operation.fault?_congr h.pc h.registers htop]
    cases hfault : o.fault? m with
    | some fault => exact ⟨rfl, rfl, h.pc, rfl, h.registers⟩
    | none =>
      exact ⟨rfl, Operation.emits_congr h.registers, Operation.pcAfter_congr h.pc h.registers htop,
        rfl, Operation.registersAfter_congr h.registers hfault htop⟩

/-- What a step stores, and where, is decided by the operation, the registers and the program
counter. -/
theorem Stores.congr {a value : UInt8} (hfetch : m'.fetch = m.fetch)
    (hresult : m'.step.result = m.step.result) (hpc : m'.pc = m.pc)
    (hregisters : m'.registers = m.registers) (h : m.Stores a value) : m'.Stores a value := by
  have hpoints {o : Operation} (ho : m.PointsAt o) : m'.PointsAt o :=
    fetch_eq_ok_iff.1 (hfetch.trans (fetch_eq_ok_iff.2 ho))
  have hsp : m'.sp = m.sp := congrArg Registers.sp hregisters
  cases h with
  | @push r ho hok hat =>
    rw [← hsp, ← hregisters]
    exact .push (hpoints ho) (hresult.trans hok) (by rw [hsp]; exact hat)
  | call ho hok hat hvalue =>
    exact .call (hpoints ho) (hresult.trans hok) (by rw [hsp]; exact hat) (by rw [hpc]; exact hvalue)

/-- A step that looks only at cells on which two machines agree has one outcome for both, but for the
memory. Afterwards they agree on these cells and on what the step has stored. -/
theorem AgreeOn.step (h : AgreeOn cells m m') (hreads : ∀ a, m.Reads a → a ∈ cells) :
    SameBesidesMemory m.step m'.step ∧
      AgreeOn (cells ∪ {a | ∃ value, m.Stores a value}) m.step.machine m'.step.machine := by
  have hsame := h.sameBesidesMemory hreads
  have hfetch := h.fetch_eq hreads
  refine ⟨hsame, hsame.pc, hsame.registers, fun a ha => ?_⟩
  by_cases hstores : ∃ value, m.Stores a value
  · obtain ⟨value, hvalue⟩ := hstores
    have hvalue' : m'.Stores a value := hvalue.congr hfetch hsame.result h.pc h.registers
    rw [hvalue.cell_step, hvalue'.cell_step]
  · have hnone : ∀ value, ¬ m.Stores a value := not_exists.1 hstores
    have hnone' : ∀ value, ¬ m'.Stores a value := fun value hvalue' =>
      hnone value
        (hvalue'.congr hfetch.symm hsame.result.symm h.pc.symm h.registers.symm)
    rw [cell_step_of_not_stores hnone, cell_step_of_not_stores hnone']
    exact h.cell a (ha.resolve_right hstores)

/-! ## Any number of steps -/

/-- One of the first `n` steps stores something in the cell. -/
def WrittenIn (m : Machine) (n : Nat) (a : UInt8) : Prop :=
  ∃ k < n, ∃ value, (m.after k).Stores a value

/-- Of the cells in `stale`, each of the first `n` steps looks only at those that one of the steps
before it has written. -/
def ReadsKnown (m : Machine) (stale : Set UInt8) (n : Nat) : Prop :=
  ∀ k < n, ∀ a ∈ stale, (m.after k).Reads a → m.WrittenIn k a

/-- The cells that are not in `stale`, or not any more, because one of the first `n` steps has written
them. -/
def known (m : Machine) (stale : Set UInt8) (n : Nat) : Set UInt8 :=
  {a | a ∉ stale ∨ m.WrittenIn n a}

variable {stale : Set UInt8} {n : Nat}

theorem known_zero : m.known stale 0 = staleᶜ := by
  ext a
  constructor
  · rintro (ha | ⟨k, hk, -⟩)
    · exact ha
    · exact absurd hk (Nat.not_lt_zero k)
  · exact Or.inl

/-- A step makes the cell known that it stores in. -/
theorem known_succ :
    m.known stale (n + 1) = m.known stale n ∪ {a | ∃ value, (m.after n).Stores a value} := by
  ext a
  constructor
  · rintro (ha | ⟨k, hk, hstores⟩)
    · exact .inl (.inl ha)
    · rcases Nat.lt_succ_iff_lt_or_eq.1 hk with hlt | rfl
      · exact .inl (.inr ⟨k, hlt, hstores⟩)
      · exact .inr hstores
  · rintro ((ha | ⟨k, hk, hstores⟩) | hstores)
    · exact .inl ha
    · exact .inr ⟨k, Nat.lt_succ_of_lt hk, hstores⟩
    · exact .inr ⟨n, n.lt_succ_self, hstores⟩

theorem ReadsKnown.mono {k : Nat} (h : m.ReadsKnown stale n) (hk : k ≤ n) :
    m.ReadsKnown stale k :=
  fun j hj => h j (Nat.lt_of_lt_of_le hj hk)

/-- Steps look only at what is known. -/
theorem ReadsKnown.mem_known {k : Nat} (h : m.ReadsKnown stale n) (hk : k < n) {a : UInt8}
    (ha : (m.after k).Reads a) : a ∈ m.known stale k := by
  by_cases hstale : a ∈ stale
  · exact .inr (h k hk a hstale ha)
  · exact .inl hstale

/-- Machines that agree outside the stale cells keep agreeing on all that is known. -/
theorem AgreeOn.after (h : AgreeOn staleᶜ m m') (hreads : m.ReadsKnown stale n) :
    AgreeOn (m.known stale n) (m.after n) (m'.after n) := by
  induction n with
  | zero =>
    rw [known_zero]
    exact h
  | succ n ih =>
    have hagree := ih (hreads.mono n.le_succ)
    rw [known_succ]
    exact (hagree.step fun a ha => hreads.mem_known n.lt_succ_self ha).2

/-- **Stale memory does not leak into a run.** Let two machines have the same program counter and
registers, and the same bytes in all cells but some stale ones. Let the first take a number of steps,
whatever they come to, and let each of them look only at those stale cells that a push or a call among
the steps before it has written. Then the second machine takes the same steps: each has the same result
and prints the same. Afterwards the two have the same program counter and registers, and the same bytes
in every cell that was not stale or has been written. They are in the same execution state too, unless
they were in different ones and have taken no step at all. -/
theorem stale_memory_is_not_seen (stale : Set UInt8) (m m' : Machine) (n : Nat)
    (hagree : AgreeOn staleᶜ m m') (hreads : m.ReadsKnown stale n) :
    (∀ k < n, (m'.after k).step.result = (m.after k).step.result ∧
      (m'.after k).step.printed = (m.after k).step.printed) ∧
    (m'.after n).pc = (m.after n).pc ∧
    (0 < n ∨ m'.state = m.state → (m'.after n).state = (m.after n).state) ∧
    (m'.after n).registers = (m.after n).registers ∧
    ∀ a, a ∉ stale ∨ m.WrittenIn n a → (m'.after n).cell a = (m.after n).cell a := by
  have hsame (k) (hk : k < n) : SameBesidesMemory (m.after k).step (m'.after k).step :=
    (hagree.after (hreads.mono (Nat.le_of_lt hk))).sameBesidesMemory fun a ha =>
      hreads.mem_known hk ha
  have hlast := hagree.after hreads
  refine ⟨fun k hk => ⟨(hsame k hk).result, (hsame k hk).printed⟩, hlast.pc, ?_, hlast.registers,
    hlast.cell⟩
  -- The last step sets the execution state, if there is one.
  cases n with
  | zero => exact fun h => h.resolve_left (Nat.lt_irrefl 0)
  | succ n => exact fun _ => (hsame n n.lt_succ_self).state

/-- The program pushes 8, pops it again, prints it and halts. Over a memory with something left in the
cell that it pushes to it does so as over an empty one. -/
theorem stale_memory_is_not_seen_of_reload :
    ∃ m m' : Machine, Memory.empty.load [0x82, 0, 8, 0x45, 0, 0x46, 1, 0x47, 1, 1] = .ok m.memory ∧
      (Memory.empty.withCell 0xF3 0xFF).load [0x82, 0, 8, 0x45, 0, 0x46, 1, 0x47, 1, 1] =
        .ok m'.memory ∧
      m'.cell 0xF3 = 0xFF ∧ AgreeOn {a | 10 ≤ a.toNat}ᶜ m m' ∧
      m.ReadsKnown {a | 10 ≤ a.toNat} 5 ∧ (m'.after 3).step.printed = [8] ∧
      (m'.after 4).step.result = .ok .halted ∧ (m'.after 5).cell 0xF3 = (m.after 5).cell 0xF3 := by
  obtain ⟨m, hm⟩ : ∃ m, m = loaded [0x82, 0, 8, 0x45, 0, 0x46, 1, 0x47, 1, 1] := ⟨_, rfl⟩
  have hload : Memory.empty.load [0x82, 0, 8, 0x45, 0, 0x46, 1, 0x47, 1, 1] = .ok m.memory := by
    rw [hm]
    rfl
  obtain ⟨memory, hload'⟩ : ∃ memory, (Memory.empty.withCell 0xF3 0xFF).load
      [0x82, 0, 8, 0x45, 0, 0x46, 1, 0x47, 1, 1] = .ok memory := ⟨_, rfl⟩
  have hagree : AgreeOn {a | 10 ≤ a.toNat}ᶜ m { m with memory } :=
    @agreeOn_of_load m { m with memory } _ _ _ rfl rfl hload hload'
  have hleft : memory.cell 0xF3 = 0xFF :=
    (Memory.cell_load_of_le hload' (by decide)).trans (Memory.cell_withCell_self _ _ _)
  have hpoints : (m.after 0).PointsAt (.ldi 0 8) ∧ (m.after 1).PointsAt (.push 0) ∧
      (m.after 2).PointsAt (.pop 1) ∧ (m.after 3).PointsAt (.prn 1) ∧ (m.after 4).PointsAt .hlt := by
    rw [hm]
    decide +kernel
  have hpc : (m.after 0).pc = 0 ∧ (m.after 1).pc = 3 ∧ (m.after 2).pc = 5 ∧ (m.after 3).pc = 7 ∧
      (m.after 4).pc = 9 := by
    rw [hm]
    decide +kernel
  have hsp : (m.after 1).sp = 0xF4 ∧ (m.after 2).sp = 0xF3 := by
    rw [hm]
    decide +kernel
  have hresults : (m.after 1).step.result = .ok .running ∧ (m.after 3).step.printed = [8] ∧
      (m.after 4).step.result = .ok .halted := by
    rw [hm]
    decide +kernel
  have hpush {a : UInt8} (ha : a = 0xF3) : ∃ value, (m.after 1).Stores a value := by
    refine ⟨_, .push hpoints.2.1 hresults.1 ?_⟩
    rw [hsp.1, ha]
    decide
  have hreads : m.ReadsKnown {a | 10 ≤ a.toNat} 5 := by
    intro k hk a ha hread
    have hstale : 10 ≤ a.toNat := ha
    -- A step at an operation of the program looks beyond the program only for the top of the stack.
    have htop {o : Operation} (ho : (m.after k).PointsAt o)
        (hend : (m.after k).pc + o.instruction.width ≤ 10) : o.ReadsTop ∧ a = (m.after k).sp :=
      (ho.reads hread).resolve_left fun hlt => by omega
    obtain rfl | rfl | rfl | rfl | rfl : k = 0 ∨ k = 1 ∨ k = 2 ∨ k = 3 ∨ k = 4 := by omega
    · exact (htop hpoints.1 (by rw [hpc.1]; decide)).1.elim
    · exact (htop hpoints.2.1 (by rw [hpc.2.1]; decide)).1.elim
    · obtain ⟨-, hat⟩ := htop hpoints.2.2.1 (by rw [hpc.2.2.1]; decide)
      exact ⟨1, by decide, hpush (hat.trans hsp.2)⟩
    · exact (htop hpoints.2.2.2.1 (by rw [hpc.2.2.2.1]; decide)).1.elim
    · exact (htop hpoints.2.2.2.2 (by rw [hpc.2.2.2.2]; decide)).1.elim
  obtain ⟨hsteps, -, -, -, hcells⟩ := stale_memory_is_not_seen _ m { m with memory } 5 hagree hreads
  exact ⟨m, { m with memory }, hload, hload', hleft, hagree, hreads,
    (hsteps 3 (by decide)).2.trans hresults.2.1, (hsteps 4 (by decide)).1.trans hresults.2.2,
    hcells 0xF3 (.inr ⟨1, by decide, hpush rfl⟩)⟩

/-- Where no step is taken the execution states need not agree: the initial machine and the one that a
failing step leaves agree on everything else. -/
theorem states_differ_before_any_step :
    AgreeOn ∅ᶜ initial initial.step.machine ∧ initial.ReadsKnown ∅ 0 ∧
      (initial.step.machine.after 0).state ≠ (initial.after 0).state := by
  have hfault : initial.step.result = .error (.unknownOpcode 0 0) := by decide +kernel
  rw [step_eq_of_error hfault]
  refine ⟨⟨rfl, rfl, fun _ _ => rfl⟩, fun k hk => absurd hk (Nat.not_lt_zero k), ?_⟩
  decide

end Machine

end ByteMachine
