import ByteMachine.Proofs.Iteration
import Mathlib.Data.Fintype.BigOperators
import Mathlib.Data.Fintype.Pigeonhole

/-!
# Runs that come back

A step does not look at the execution state: machines that are `Alike` take the same steps. There
are `configurationCount` machines that are not alike and whose program counter is in range, so more
steps than that have been somewhere twice (`exists_alike`), and steps that come back to where they
were go round for ever (`Alike.runsFor`).

A run therefore never needs more fuel than it has. `runWith_eq_some_iff` and `runWith_eq_none_iff` say
what a run is without mentioning fuel: it ends exactly where the first step does that does not leave
the machine running, what was observed is what the steps so far have shown, and it fails to end
exactly if there is no such step. And then it has been somewhere twice (`run_endless_iff_repeats`).
-/

namespace ByteMachine

namespace Machine

variable {ε : Type} {m m' : Machine}

/-! ## Machines that take the same steps -/

/-- Two machines that differ in the execution state at most. -/
def Alike (m m' : Machine) : Prop :=
  m.pc = m'.pc ∧ m.registers = m'.registers ∧ m.memory = m'.memory

theorem Alike.step_eq (h : m.Alike m') : m.step = m'.step := by
  obtain ⟨pc, state, registers, memory⟩ := m
  obtain ⟨rfl, rfl, rfl⟩ := h
  rfl

/-- Alike machines stay together. -/
theorem Alike.step_after_eq (h : m.Alike m') (k : Nat) :
    (m.after k).step = (m'.after k).step := by
  cases k with
  | zero => exact h.step_eq
  | succ k => rw [← after_step, h.step_eq, after_step]

/-- Steps that come back to where they were never end. -/
theorem Alike.runsFor {i j : Nat} (h : (m.after i).Alike (m.after j)) (hij : i < j)
    (hj : m.RunsFor j) (n : Nat) : m.RunsFor n := by
  intro k hk
  clear hk
  induction k using Nat.strong_induction_on with
  | h k ih =>
    rcases Nat.lt_or_ge k j with hlt | hge
    · exact hj k hlt
    · -- The step at `k` is the one taken a round earlier.
      obtain ⟨d, rfl⟩ := Nat.exists_eq_add_of_le hge
      rw [after_add, ← h.step_after_eq d, ← after_add]
      exact ih (i + d) (Nat.add_lt_add_right hij d)

/-! ## Counting -/

/-- Everything that a step looks at. -/
abbrev Configuration : Type :=
  Fin (memorySize + 1) × (Fin registerCount → Fin UInt8.size) × (Fin memorySize → Fin UInt8.size)

theorem card_configuration : Fintype.card Configuration = configurationCount := by
  simp only [Fintype.card_prod, Fintype.card_fun, Fintype.card_fin]
  exact (Nat.mul_assoc _ _ _).symm

/-- What a step looks at in a machine. -/
def configuration (m : Machine) : Configuration :=
  (⟨m.pc % (memorySize + 1), Nat.mod_lt _ (Nat.succ_pos _)⟩,
    fun i => (m.registers.slots.get i).toFin, fun a => (m.memory.cells.get a).toFin)

/-- With the program counter in range, a configuration leaves nothing out. -/
theorem alike_of_configuration_eq (hm : m.pc ≤ memorySize) (hm' : m'.pc ≤ memorySize)
    (h : m.configuration = m'.configuration) : m.Alike m' := by
  obtain ⟨hpc, hregisters, hmemory⟩ : _ ∧ _ ∧ _ := by
    simpa only [configuration, Prod.mk.injEq] using h
  refine ⟨?_, ?_, ?_⟩
  · have hval := congrArg Fin.val hpc
    simp only at hval
    rwa [Nat.mod_eq_of_lt (Nat.lt_succ_of_le hm), Nat.mod_eq_of_lt (Nat.lt_succ_of_le hm')] at hval
  · have hslots : m.registers.slots = m'.registers.slots := by
      ext i hi
      exact congrArg UInt8.toNat (UInt8.toFin_inj.1 (congrFun hregisters ⟨i, hi⟩))
    exact congrArg Registers.mk hslots
  · have hcells : m.memory.cells = m'.memory.cells := by
      ext a ha
      exact congrArg UInt8.toNat (UInt8.toFin_inj.1 (congrFun hmemory ⟨a, ha⟩))
    exact congrArg Memory.mk hcells

/-- Some of the first machines are alike: there are more of them than configurations. -/
theorem exists_alike (hm : m.pc ≤ memorySize) :
    ∃ i j, i < j ∧ j ≤ configurationCount ∧ (m.after i).Alike (m.after j) := by
  have hcard : Fintype.card Configuration < Fintype.card (Fin (configurationCount + 1)) := by
    rw [card_configuration, Fintype.card_fin]
    exact Nat.lt_succ_self _
  obtain ⟨i, j, hne, heq⟩ :=
    Fintype.exists_ne_map_eq_of_card_lt (fun k : Fin (configurationCount + 1) =>
      (m.after k).configuration) hcard
  have halike {i j : Nat} (h : (m.after i).configuration = (m.after j).configuration) :
      (m.after i).Alike (m.after j) :=
    alike_of_configuration_eq (pc_after_le hm i) (pc_after_le hm j) h
  rcases Nat.lt_or_gt_of_ne (Fin.val_ne_of_ne hne) with hlt | hgt
  · exact ⟨i, j, hlt, Nat.le_of_lt_succ j.isLt, halike heq⟩
  · exact ⟨j, i, hgt, Nat.le_of_lt_succ i.isLt, halike heq.symm⟩

/-! ## Runs without fuel -/

/-- Only a machine whose program counter is in range takes a step that leaves it running. -/
theorem RunsFor.pc_le {n : Nat} (h : m.RunsFor n) (hn : 0 < n) : m.pc ≤ memorySize := by
  obtain ⟨o, ho, -, -⟩ := step_eq_of_ok (h 0 hn)
  exact Nat.le_trans (Nat.le_add_right _ _) ho.pc_add_width_le

/-- A machine that takes as many steps as there are configurations never stops. -/
theorem RunsFor.of_configurationCount_le {n : Nat} (h : m.RunsFor n) (hn : configurationCount ≤ n)
    (k : Nat) : m.RunsFor k := by
  have hpos : 0 < configurationCount := by decide +kernel
  obtain ⟨i, j, hij, hj, halike⟩ := exists_alike (h.pc_le (Nat.lt_of_lt_of_le hpos hn))
  exact halike.runsFor hij (h.mono (Nat.le_trans hj hn)) k

/-- Steps that end do so within the fuel of a run. -/
theorem RunsFor.lt_configurationCount {n : Nat} (h : m.RunsFor n) {result : Except Fault Unit}
    (hend : (m.after n).step.ending? = some result) : n < configurationCount := by
  refine Nat.lt_of_not_le fun hle => ?_
  have hnone : (m.after n).step.ending? = none :=
    Outcome.ending?_eq_none_iff.2 (h.of_configurationCount_le hle (n + 1) n n.lt_succ_self)
  rw [hend] at hnone
  cases hnone

/-- Steps that end are a run, given the fuel for them. -/
theorem RunsFor.runFor_eq {observer : Observer ε} {n fuel : Nat} {seen : Array ε}
    {result : Except Fault Unit} (h : m.RunsFor n) (hend : (m.after n).step.ending? = some result)
    (hfuel : n < fuel) :
    m.runFor observer fuel seen =
      some ⟨result, m.after (n + 1), seen ++ m.observedIn observer (n + 1)⟩ := by
  induction n generalizing m fuel seen with
  | zero =>
    obtain ⟨fuel, rfl⟩ := Nat.exists_eq_add_of_le' hfuel
    rw [runFor_succ, show m.step.ending? = some result from hend]
    rfl
  | succ n ih =>
    obtain ⟨fuel, rfl⟩ := Nat.exists_eq_add_of_le' (Nat.lt_of_le_of_lt (Nat.zero_le _) hfuel)
    obtain ⟨hrunning, hrest⟩ := runsFor_add.1 (Nat.add_comm n 1 ▸ h)
    have hfirst : m.step.ending? = none := Outcome.ending?_eq_none_iff.2 (runsFor_one.1 hrunning)
    have hrest : m.step.machine.RunsFor n := hrest
    have hseen : seen ++ observer m m.step ++ m.step.machine.observedIn observer (n + 1) =
        seen ++ m.observedIn observer (n + 1 + 1) := by
      rw [← observedIn_step observer m (n + 1)]
      exact Array.ext' (by simp)
    rw [← after_step] at hend
    rw [runFor_succ, hfirst]
    show m.step.machine.runFor observer fuel (seen ++ observer m m.step) = _
    rw [ih hrest hend (Nat.lt_of_succ_lt_succ hfuel), after_step, hseen]

/-- A run ends exactly where the first step does that does not leave the machine running. -/
theorem runWith_eq_some_iff {observer : Observer ε} {run : Run ε} :
    m.runWith observer = some run ↔
      ∃ n, m.RunsFor n ∧ (m.after n).step.ending? = some run.result ∧
        run.machine = m.after (n + 1) ∧ run.observed.toList = m.observedIn observer (n + 1) := by
  refine ⟨runWith_eq_some, ?_⟩
  rintro ⟨n, hruns, hend, hmachine, hobserved⟩
  rw [runWith, hruns.runFor_eq hend (hruns.lt_configurationCount hend), ← hmachine, ← hobserved]
  obtain ⟨result, machine, observed⟩ := run
  simp

theorem RunsFor.runWith_eq_of_ending {n : Nat} {result : Except Fault Unit} (h : m.RunsFor n)
    (hend : (m.after n).step.ending? = some result) (observer : Observer ε) :
    m.runWith observer =
      some ⟨result, m.after (n + 1), (m.observedIn observer (n + 1)).toArray⟩ :=
  runWith_eq_some_iff.2 ⟨n, h, hend, rfl, rfl⟩

/-- The steps that leave the machine running come before the one that ends the run. -/
theorem RunsFor.le_of_ending {n k : Nat} {result : Except Fault Unit} (h : m.RunsFor k)
    (hend : (m.after n).step.ending? = some result) : k ≤ n := by
  refine Nat.le_of_not_lt fun hlt => ?_
  have hnone := Outcome.ending?_eq_none_iff.2 (h n hlt)
  rw [hend] at hnone
  cases hnone

/-! ## Runs that never end -/

/-- A run fails to end exactly if every step leaves the machine running. -/
theorem runWith_eq_none_iff {observer : Observer ε} :
    m.runWith observer = none ↔ ∀ n, m.RunsFor n := by
  constructor
  · intro hnone n
    induction n with
    | zero => exact runsFor_zero m
    | succ n ih =>
      cases hend : (m.after n).step.ending? with
      | none => exact runsFor_add.2 ⟨ih, runsFor_one.2 (Outcome.ending?_eq_none_iff.1 hend)⟩
      | some result =>
        rw [ih.runWith_eq_of_ending hend] at hnone
        cases hnone
  · intro h
    cases hrun : m.runWith observer with
    | none => rfl
    | some run =>
      obtain ⟨n, -, hend, -, -⟩ := runWith_eq_some hrun
      exact absurd ((h (n + 1)).le_of_ending hend) (Nat.not_succ_le_self n)

/-- Steps that go on for ever come back to where they were. -/
theorem exists_alike_of_runsFor (h : ∀ n, m.RunsFor n) :
    ∃ i j, i < j ∧ m.RunsFor j ∧ (m.after i).Alike (m.after j) := by
  obtain ⟨i, j, hij, -, halike⟩ := exists_alike ((h 1).pc_le Nat.zero_lt_one)
  exact ⟨i, j, hij, h j, halike⟩

/-- A program counter with 257 values, and 264 bytes. -/
theorem configurationCount_eq : configurationCount = 257 * 2 ^ 2112 :=
  calc configurationCount
      = 257 * (2 ^ 8) ^ 8 * (2 ^ 8) ^ 256 := rfl
    _ = 257 * 2 ^ 2112 := by rw [← pow_mul, ← pow_mul, mul_assoc, ← pow_add]

/-- **A run goes on for ever only by repeating itself.** A run that does not end leaves the machine
running at every step, and it does so exactly if two of the machines on the way agree in the program
counter, the registers and the memory. A run that ends has therefore taken no more steps than there
are such machines. -/
theorem run_endless_iff_repeats (m : Machine) :
    (m.run = none ↔ ∀ n, m.RunsFor n) ∧
    (m.run = none ↔ ∃ i j, i < j ∧ m.RunsFor j ∧ (m.after i).Alike (m.after j)) ∧
    (∀ n, m.RunsFor n → (m.after n).step.result ≠ .ok .running → n + 1 ≤ 257 * 2 ^ 2112) := by
  have hnone : m.run = none ↔ ∀ n, m.RunsFor n := runWith_eq_none_iff
  refine ⟨hnone, ?_, fun n hruns hends => ?_⟩
  · rw [hnone]
    constructor
    · exact exists_alike_of_runsFor
    · rintro ⟨i, j, hij, hj, halike⟩
      exact halike.runsFor hij hj
  · cases hend : (m.after n).step.ending? with
    | none => exact absurd (Outcome.ending?_eq_none_iff.1 hend) hends
    | some result =>
      rw [← configurationCount_eq]
      exact hruns.lt_configurationCount hend

/-- The program moves the stack pointer to a cell that holds zero and returns there, to its own
beginning, where nothing has changed. With a halt in place of the return it ends in two steps. -/
theorem run_endless_iff_repeats_of_ret :
    (∃ m, m = { loaded [0x82, 7, 16, 0x11] with registers := Registers.empty.withSp 17 } ∧
      m.RunsFor 2 ∧ (m.after 0).Alike (m.after 2) ∧ m.run = none) ∧
    ∃ m, m = loaded [0x82, 7, 16, 1] ∧ m.RunsFor 1 ∧ (m.after 1).step.result = .ok .halted ∧
      1 + 1 ≤ 257 * 2 ^ 2112 := by
  constructor
  · obtain ⟨m, hm⟩ : ∃ m, m = { loaded [0x82, 7, 16, 0x11] with
      registers := Registers.empty.withSp 17 } := ⟨_, rfl⟩
    have hruns : m.RunsFor 2 := by
      rw [hm]
      decide +kernel
    -- Neither instruction writes to memory, so it need not be compared cell by cell.
    have hldi : m.step.machine = (Operation.ldi 7 16).effect m := by
      have hpoints : m.PointsAt (.ldi 7 16) := by
        rw [hm]
        decide +kernel
      rw [hpoints.step_eq rfl]
    have hret : m.after 2 = Operation.ret.effect m.step.machine := by
      have hpoints : m.step.machine.PointsAt .ret := by
        rw [hm]
        decide +kernel
      have hsp : m.step.machine.sp ≠ 255 := by
        rw [hm]
        decide +kernel
      show m.step.machine.step.machine = _
      rw [hpoints.step_eq (Operation.fault?_ret_eq_none_iff.2 hsp)]
    have hmemory : m.memory = (m.after 2).memory := by
      rw [hret, hldi]
      rfl
    have halike : (m.after 0).Alike (m.after 2) := by
      refine ⟨?_, ?_, hmemory⟩
      · rw [hm]
        decide +kernel
      · rw [hm]
        decide +kernel
    exact ⟨m, hm, hruns, halike, (run_endless_iff_repeats m).2.1.2 ⟨0, 2, by decide, hruns, halike⟩⟩
  · have hruns : (loaded [0x82, 7, 16, 1]).RunsFor 1 := by decide +kernel
    have hhalts : ((loaded [0x82, 7, 16, 1]).after 1).step.result = .ok .halted := by
      decide +kernel
    refine ⟨_, rfl, hruns, hhalts, (run_endless_iff_repeats _).2.2 1 hruns ?_⟩
    rw [hhalts]
    decide

end Machine

end ByteMachine
