import ByteMachine.Proofs.Iteration

/-!
# What is in a cell

Code and stack share one memory, and a program may move the stack pointer as it likes. Still there
are only two ways to write to memory, a push and a call, and each writes the one cell below the stack
pointer (`Stores`). Every other step, a failing one included, leaves every cell alone
(`cell_step_of_not_stores`). After any number of steps a cell therefore holds what was stored in it
last, or what it held at first if nothing was (`cell_after_eq_iff`).

A program is safe from its own stack for as long as the stack pointer is greater than its length
whenever something is stored (`spells_after`).
-/

namespace ByteMachine

namespace Machine

/-- The next step is a push or a call that succeeds, and it stores the value in the cell. -/
inductive Stores (m : Machine) (a : UInt8) : UInt8 → Prop
  /-- A push stores its register as it is when the stack pointer has moved down. -/
  | push {r : UInt8} (ho : m.PointsAt (.push r)) (hok : m.step.result = .ok .running)
      (hsp : m.sp.toNat = a.toNat + 1) : Stores m a ((m.registers.withSp (m.sp - 1)).reg r)
  /-- A call stores the address behind it. -/
  | call {r value : UInt8} (ho : m.PointsAt (.call r)) (hok : m.step.result = .ok .running)
      (hsp : m.sp.toNat = a.toNat + 1) (hvalue : value.toNat = m.pc + 2) : Stores m a value

/-- Of the first `n` steps, the latest that stores something in the cell stores the value. -/
def LastStores (m : Machine) (n : Nat) (a value : UInt8) : Prop :=
  ∃ k < n, (m.after k).Stores a value ∧ ∀ j < n, k < j → ∀ other, ¬ (m.after j).Stores a other

variable {m : Machine} {a value : UInt8} {n : Nat}

/-! ## One step -/

theorem eq_sub_one_iff {sp : UInt8} (hsp : sp ≠ 0) : a = sp - 1 ↔ sp.toNat = a.toNat + 1 := by
  have hbelow := toNat_sub_one hsp
  constructor
  · rintro rfl
    exact hbelow.symm
  · intro h
    refine UInt8.toNat_inj.1 ?_
    omega

/-- The address behind a call that succeeds fits in a byte. -/
theorem toNat_ofNat_add_two {r : UInt8} (hfault : (Operation.call r).fault? m = none) :
    (UInt8.ofNat (m.pc + 2)).toNat = m.pc + 2 := by
  have hpc := (Operation.fault?_call_eq_none_iff.1 hfault).2.1
  exact UInt8.toNat_ofNat_of_lt' (Nat.lt_succ_of_le hpc)

theorem Stores.sp_eq (h : m.Stores a value) : m.sp.toNat = a.toNat + 1 := by
  cases h with
  | push _ _ hsp => exact hsp
  | call _ _ hsp _ => exact hsp

/-- A step that stores a value leaves it in the cell. -/
theorem Stores.cell_step (h : m.Stores a value) : m.step.machine.cell a = value := by
  cases h with
  | @push r ho hok hsp =>
    obtain ⟨hfault, hstep⟩ := ho.step_eq_of_ok hok
    obtain rfl := (eq_sub_one_iff (Operation.fault?_push_eq_none_iff.1 hfault).2).2 hsp
    rw [hstep, Registers.reg_withSp]
    exact Memory.cell_withCell_self _ _ _
  | @call r _ ho hok hsp hvalue =>
    obtain ⟨hfault, hstep⟩ := ho.step_eq_of_ok hok
    obtain rfl := (eq_sub_one_iff (Operation.fault?_call_eq_none_iff.1 hfault).2.2).2 hsp
    have hstored : UInt8.ofNat (m.pc + 2) = value :=
      UInt8.toNat_inj.1 ((toNat_ofNat_add_two hfault).trans hvalue.symm)
    rw [hstep, ← hstored]
    exact Memory.cell_withCell_self _ _ _

/-- A step that stores nothing in a cell leaves the cell as it was. -/
theorem cell_step_of_not_stores (h : ∀ value, ¬ m.Stores a value) :
    m.step.machine.cell a = m.cell a := by
  rcases step_cases m with ⟨o, ho, hfault, hstep⟩ | ⟨fault, hstep⟩
  · rw [hstep]
    cases o with
    | hlt | ldi | prn | add | mul | pop | ret => rfl
    | push r =>
      have hne : a ≠ m.sp - 1 := by
        intro ha
        have hsp := (eq_sub_one_iff (Operation.fault?_push_eq_none_iff.1 hfault).2).1 ha
        exact h _ (.push ho (by rw [hstep]; rfl) hsp)
      exact Memory.cell_withCell_other _ _ hne
    | call r =>
      have hne : a ≠ m.sp - 1 := by
        intro ha
        have hsp := (eq_sub_one_iff (Operation.fault?_call_eq_none_iff.1 hfault).2.2).1 ha
        exact h _ (.call ho (by rw [hstep]; rfl) hsp (toNat_ofNat_add_two hfault))
      exact Memory.cell_withCell_other _ _ hne
  · rw [hstep]
    rfl

/-! ## Any number of steps -/

/-- Steps that store nothing in a cell leave the cell as it was. -/
theorem cell_after_of_not_stores (h : ∀ k < n, ∀ value, ¬ (m.after k).Stores a value) :
    (m.after n).cell a = m.cell a := by
  induction n with
  | zero => rfl
  | succ n ih =>
    calc (m.after n).step.machine.cell a
        = (m.after n).cell a := cell_step_of_not_stores (h n n.lt_succ_self)
      _ = m.cell a := ih fun k hk => h k (Nat.lt_succ_of_lt hk)

/-- What is stored last in a cell stays there. -/
theorem LastStores.cell_after (h : m.LastStores n a value) : (m.after n).cell a = value := by
  obtain ⟨k, hk, hstores, hlast⟩ := h
  obtain ⟨d, rfl⟩ := Nat.exists_eq_add_of_le hk
  have hrest : ∀ j < d, ∀ other, ¬ ((m.after (k + 1)).after j).Stores a other := by
    intro j hj
    rw [← after_add]
    exact hlast (k + 1 + j) (by omega) (by omega)
  calc (m.after (k + 1 + d)).cell a
      = ((m.after (k + 1)).after d).cell a := by rw [after_add]
    _ = (m.after (k + 1)).cell a := cell_after_of_not_stores hrest
    _ = value := hstores.cell_step

theorem LastStores.succ (h : m.LastStores n a value) (hn : ∀ other, ¬ (m.after n).Stores a other) :
    m.LastStores (n + 1) a value := by
  obtain ⟨k, hk, hstores, hlast⟩ := h
  refine ⟨k, Nat.lt_succ_of_lt hk, hstores, fun j hj hlt => ?_⟩
  rcases Nat.lt_succ_iff_lt_or_eq.1 hj with hbefore | rfl
  · exact hlast j hbefore hlt
  · exact hn

/-- Either some step stores in a cell, and then one of them is the latest, or none does. -/
theorem exists_lastStores_or (m : Machine) (n : Nat) (a : UInt8) :
    (∃ value, m.LastStores n a value) ∨ ∀ k < n, ∀ value, ¬ (m.after k).Stores a value := by
  induction n with
  | zero => exact .inr fun k hk => absurd hk (Nat.not_lt_zero k)
  | succ n ih =>
    by_cases hn : ∃ value, (m.after n).Stores a value
    · obtain ⟨value, hvalue⟩ := hn
      exact .inl ⟨value, n, n.lt_succ_self, hvalue, fun j hj hlt => by omega⟩
    · have hnothing : ∀ value, ¬ (m.after n).Stores a value := not_exists.1 hn
      rcases ih with ⟨value, hlast⟩ | hnone
      · exact .inl ⟨value, hlast.succ hnothing⟩
      · refine .inr fun j hj => ?_
        rcases Nat.lt_succ_iff_lt_or_eq.1 hj with hbefore | rfl
        · exact hnone j hbefore
        · exact hnothing

/-- The bytes that stand at the beginning of memory stay as they are while nothing is stored among
them. -/
theorem spells_after {bytes : List UInt8} (h : m.memory.Spells 0 bytes)
    (hsp : ∀ k < n, ∀ a value, (m.after k).Stores a value →
      bytes.length < (m.after k).sp.toNat) :
    (m.after n).memory.Spells 0 bytes := by
  refine Memory.spells_of_read fun i byte hi => ?_
  have hlength : i < bytes.length := (List.getElem?_eq_some_iff.1 hi).1
  have hread := h.read_eq hi
  have hlt : 0 + i < 256 := Memory.lt_of_read_eq_ok hread
  obtain ⟨a, ha⟩ : ∃ a : UInt8, a.toNat = 0 + i := ⟨_, UInt8.toNat_ofNat_of_lt' hlt⟩
  have hkept : (m.after n).cell a = m.cell a := by
    refine cell_after_of_not_stores fun k hk value hstores => ?_
    have hhigher := hsp k hk a value hstores
    have hat := hstores.sp_eq
    omega
  rw [← ha, Memory.read_toNat] at hread ⊢
  exact (congrArg _ hkept).trans hread

/-- What a cell holds after some steps: what was stored in it last, or else what it held before. -/
theorem cell_after_eq_iff :
    (m.after n).cell a = value ↔
      m.LastStores n a value ∨
        (∀ k < n, ∀ other, ¬ (m.after k).Stores a other) ∧ m.cell a = value := by
  constructor
  · intro hcell
    rcases exists_lastStores_or m n a with ⟨last, hlast⟩ | hnone
    · rw [← hcell, hlast.cell_after]
      exact .inl hlast
    · exact .inr ⟨hnone, (cell_after_of_not_stores hnone).symm.trans hcell⟩
  · rintro (hlast | ⟨hnone, hcell⟩)
    · exact hlast.cell_after
    · exact (cell_after_of_not_stores hnone).trans hcell

/-- **A cell holds what was stored in it last.** After any number of steps, whatever each of them came
to, a cell holds the value that the latest push or call to store in it has stored, or, if none has,
the value that it held before. So a program that has been loaded is in memory unchanged for as long as
the stack pointer is greater than its length at every push and every call. -/
theorem cell_holds_last_stored (m : Machine) (n : Nat) :
    (∀ a value, (m.after n).cell a = value ↔
      m.LastStores n a value ∨
        (∀ k < n, ∀ other, ¬ (m.after k).Stores a other) ∧ m.cell a = value) ∧
    (∀ old bytes, Memory.load old bytes = .ok m.memory →
      (∀ k < n, ∀ a value, (m.after k).Stores a value → bytes.length < (m.after k).sp.toNat) →
        (m.after n).memory.Spells 0 bytes) :=
  ⟨fun _ _ => cell_after_eq_iff, fun _ _ hload => spells_after (Memory.spells_of_load hload)⟩

/-- The program pushes 6 and pops it again, and then the call at 7 stores its return address in the
same cell. The program is far below and stays as it was loaded. -/
theorem cell_holds_last_stored_of_call :
    ∃ m, m = loaded [0x82, 1, 6, 0x45, 1, 0x46, 2, 0x50, 0] ∧
      m.LastStores 2 0xF3 6 ∧ (m.after 2).cell 0xF3 = 6 ∧
      m.LastStores 4 0xF3 9 ∧ (m.after 4).cell 0xF3 = 9 ∧
      (m.after 4).memory.Spells 0 [0x82, 1, 6, 0x45, 1, 0x46, 2, 0x50, 0] := by
  obtain ⟨m, hm⟩ : ∃ m, m = loaded [0x82, 1, 6, 0x45, 1, 0x46, 2, 0x50, 0] := ⟨_, rfl⟩
  have hruns : m.RunsFor 4 := by
    rw [hm]
    decide +kernel
  have hpush : (m.after 1).PointsAt (.push 1) ∧ (m.after 1).sp.toNat = 0xF4 ∧
      ((m.after 1).registers.withSp ((m.after 1).sp - 1)).reg 1 = 6 := by
    rw [hm]
    decide +kernel
  have hcall : (m.after 3).PointsAt (.call 0) ∧ (m.after 3).sp.toNat = 0xF4 ∧
      9 = (m.after 3).pc + 2 := by
    rw [hm]
    decide +kernel
  have hhigh : ∀ k < 4, 9 < (m.after k).sp.toNat := by
    rw [hm]
    decide +kernel
  have hfirst : m.LastStores 2 0xF3 6 := by
    have hstores := Stores.push (a := 0xF3) hpush.1 (hruns 1 (by decide)) hpush.2.1
    rw [hpush.2.2] at hstores
    exact ⟨1, by decide, hstores, fun j hj hlt => by omega⟩
  have hlast : m.LastStores 4 0xF3 9 :=
    ⟨3, by decide, .call hcall.1 (hruns 3 (by decide)) hcall.2.1 hcall.2.2,
      fun j hj hlt => by omega⟩
  refine ⟨m, hm, hfirst, ?_, hlast, ?_, ?_⟩
  · exact ((cell_holds_last_stored m 2).1 0xF3 6).2 (.inl hfirst)
  · exact ((cell_holds_last_stored m 4).1 0xF3 9).2 (.inl hlast)
  · refine (cell_holds_last_stored m 4).2 Memory.empty _ ?_ fun k hk _ _ _ => hhigh k hk
    rw [hm]
    rfl

end Machine

end ByteMachine
