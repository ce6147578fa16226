import ByteMachine.Proofs.Iteration
import Mathlib.Logic.Function.Basic

/-!
# Arithmetic over a whole sequence

A load of a constant, a sum and a product assign a register a value that depends on the registers
alone. Read over the natural numbers, such assignments can be carried out one after the other
without ever reducing anything (`Assignment.evaluateAll`); the values then grow without bound.

The machine reduces every value to a byte as soon as it is computed. That makes no difference in the
end: sums and products do not see multiples of 256 in what they are given (`Assignment.value_mod`),
so that a register holds its unbounded value modulo 256 is kept by each assignment
(`Represents.step`), also where operands coincide or are the stack pointer, and so by any number of
them.
-/

namespace ByteMachine

/-- An operation that assigns a register a value computed from registers. -/
inductive Assignment where
  | constant (register value : UInt8)
  | sum (a b : UInt8)
  | product (a b : UInt8)
  deriving DecidableEq, Repr

namespace Assignment

/-- The operation of an assignment. -/
def operation : Assignment → Operation
  | constant r value => .ldi r value
  | sum a b => .add a b
  | product a b => .mul a b

/-- The register that is assigned to. -/
def target : Assignment → UInt8
  | constant r _ => r
  | sum a _ | product a _ => a

/-- The value that is assigned, over the natural numbers. -/
def value (values : UInt8 → Nat) : Assignment → Nat
  | constant _ value => value.toNat
  | sum a b => values a + values b
  | product a b => values a * values b

/-- The values of the registers after an assignment. -/
def evaluate (values : UInt8 → Nat) (assignment : Assignment) : UInt8 → Nat :=
  Function.update values assignment.target (assignment.value values)

/-- The values of the registers after assignments in a row. -/
def evaluateAll (values : UInt8 → Nat) (program : List Assignment) : UInt8 → Nat :=
  program.foldl evaluate values

/-- It makes no difference modulo 256 whether the values have been reduced before. -/
theorem value_mod (assignment : Assignment) (values : UInt8 → Nat) :
    assignment.value (fun r => values r % 256) % 256 = assignment.value values % 256 := by
  cases assignment with
  | constant r value => rfl
  | sum a b => exact (Nat.add_mod (values a) (values b) 256).symm
  | product a b => exact (Nat.mul_mod (values a) (values b) 256).symm

end Assignment

namespace Machine

variable {m : Machine} {assignment : Assignment} {values : UInt8 → Nat}

/-- The next steps execute the given operations, in order. -/
def Performs (m : Machine) : List Operation → Prop
  | [] => True
  | o :: ops => m.Executes o ∧ m.step.machine.Performs ops

/-- Each register holds its value, reduced to a byte. -/
def Represents (m : Machine) (values : UInt8 → Nat) : Prop :=
  ∀ r, (m.reg r).toNat = values r % 256

/-! ## One assignment -/

/-- An assignment that is executed names a register, gives it the value computed from the registers,
and goes on behind itself; it prints nothing and leaves the memory alone. -/
theorem Executes.assign (h : m.Executes assignment.operation) :
    assignment.target < 8 ∧ m.step = ⟨.ok .running, { m with
      pc := m.pc + 3
      state := .running
      registers := m.registers.withReg assignment.target
        (UInt8.ofNat (assignment.value fun r => (m.reg r).toNat)) }, []⟩ := by
  obtain ⟨hfault, hstep⟩ := h.step_eq
  have htarget : assignment.target ∈ assignment.operation.registerOperands := by
    cases assignment with
    | constant | sum | product => exact List.mem_cons_self
  refine ⟨Operation.lt_of_fault?_eq_none hfault htarget, hstep.trans ?_⟩
  cases assignment with
  | constant r value =>
    have hvalue : UInt8.ofNat value.toNat = value := UInt8.ofNat_toNat
    rw [Assignment.value, hvalue]
    rfl
  | sum | product => rfl

/-- Bytes that represent values go on to represent them through an assignment. -/
theorem Represents.step (hm : m.Represents values) (h : m.Executes assignment.operation) :
    m.step.machine.Represents (assignment.evaluate values) := by
  obtain ⟨htarget, hstep⟩ := h.assign
  have hvalues : (fun r => (m.reg r).toNat) = fun r => values r % 256 := funext hm
  intro r
  rw [hstep]
  by_cases hr : r = assignment.target
  · subst hr
    show ((m.registers.withReg assignment.target _).reg assignment.target).toNat = _
    rw [Registers.reg_withReg_self _ _ htarget, Assignment.evaluate, Function.update_self, hvalues]
    exact (UInt8.toNat_ofNat' ..).trans (assignment.value_mod values)
  · show ((m.registers.withReg assignment.target _).reg r).toNat = _
    rw [Registers.reg_withReg_other _ _ hr, Assignment.evaluate, Function.update_of_ne hr]
    exact hm r

/-! ## Assignments in a row -/

theorem Represents.after {program : List Assignment} (hm : m.Represents values)
    (h : m.Performs (program.map Assignment.operation)) :
    (m.after program.length).Represents (Assignment.evaluateAll values program) := by
  induction program generalizing m values with
  | nil => exact hm
  | cons assignment program ih =>
    obtain ⟨hfirst, hrest⟩ := h
    rw [List.length_cons, ← after_step]
    exact ih (hm.step hfirst) hrest

/-- Assignments do not touch the memory and do not print. -/
theorem Performs.quiet {program : List Assignment}
    (h : m.Performs (program.map Assignment.operation)) :
    (m.after program.length).memory = m.memory ∧ m.printedIn program.length = [] := by
  induction program generalizing m with
  | nil => exact ⟨rfl, rfl⟩
  | cons assignment program ih =>
    obtain ⟨hfirst, hrest⟩ := h
    obtain ⟨hmemory, hprinted⟩ := ih hrest
    obtain ⟨-, hstep⟩ := hfirst.assign
    rw [List.length_cons, ← after_step, printedIn, ← observedIn_step]
    refine ⟨?_, ?_⟩
    · rw [hmemory, hstep]
    · rw [← printedIn, hprinted, hstep, List.append_nil]

/-- **Arithmetic is exact modulo 256.** Let the next steps succeed and execute loads of constants,
sums and products, in any number, order and choice of registers. Then each register ends with what
the same assignments come to over the natural numbers, from the values that the registers had at the
beginning and reduced once, at the end; memory is as it was, and nothing has been printed. -/
theorem arithmetic_exact (m : Machine) (program : List Assignment)
    (h : m.Performs (program.map Assignment.operation)) :
    (∀ r, ((m.after program.length).reg r).toNat =
      Assignment.evaluateAll (fun r => (m.reg r).toNat) program r % 256) ∧
    (m.after program.length).memory = m.memory ∧ m.printedIn program.length = [] := by
  have hstart : m.Represents fun r => (m.reg r).toNat :=
    fun r => (Nat.mod_eq_of_lt (m.reg r).toNat_lt).symm
  exact ⟨hstart.after h, h.quiet⟩

/-- The fourth power of 201, by two squarings, is added to the stack pointer. The power is
1632240801: both values are far outside a byte before the reduction. -/
theorem arithmetic_exact_of_power :
    ∃ m : Machine, m = loaded [0x82, 0, 201, 0xA2, 0, 0, 0xA2, 0, 0, 0xA0, 7, 0] ∧
      m.Performs ([.constant 0 201, .product 0 0, .product 0 0, .sum 7 0].map
        Assignment.operation) ∧
      ((m.after 4).reg 0).toNat = 1632240801 % 256 ∧
      ((m.after 4).reg 7).toNat = (244 + 1632240801) % 256 ∧
      (m.after 4).memory = m.memory ∧ m.printedIn 4 = [] := by
  obtain ⟨m, hm⟩ : ∃ m : Machine,
      m = loaded [0x82, 0, 201, 0xA2, 0, 0, 0xA2, 0, 0, 0xA0, 7, 0] := ⟨_, rfl⟩
  have hpoints : m.PointsAt (.ldi 0 201) ∧ (m.after 1).PointsAt (.mul 0 0) ∧
      (m.after 2).PointsAt (.mul 0 0) ∧ (m.after 3).PointsAt (.add 7 0) := by
    rw [hm]
    decide +kernel
  have hruns : m.RunsFor 4 := by
    rw [hm]
    decide +kernel
  obtain ⟨hload, hsquare, hagain, hadd⟩ := hpoints
  have hperforms : m.Performs ([.constant 0 201, .product 0 0, .product 0 0, .sum 7 0].map
      Assignment.operation) :=
    ⟨⟨hload, _, hruns 0 (by omega)⟩, ⟨hsquare, _, hruns 1 (by omega)⟩,
      ⟨hagain, _, hruns 2 (by omega)⟩, ⟨hadd, _, hruns 3 (by omega)⟩, trivial⟩
  have hvalues (values : UInt8 → Nat) :
      Assignment.evaluateAll values
        [.constant 0 201, .product 0 0, .product 0 0, .sum 7 0] 0 = 1632240801 ∧
      Assignment.evaluateAll values
        [.constant 0 201, .product 0 0, .product 0 0, .sum 7 0] 7 = values 7 + 1632240801 := by
    constructor <;>
      simp [Assignment.evaluateAll, Assignment.evaluate, Assignment.value, Assignment.target]
  have hsp : (m.reg 7).toNat = 244 := by
    rw [hm]
    decide +kernel
  obtain ⟨hregisters, hmemory, hprinted⟩ := arithmetic_exact m _ hperforms
  obtain ⟨hpower, hsum⟩ := hvalues fun r => (m.reg r).toNat
  refine ⟨m, hm, hperforms, ?_, ?_, hmemory, hprinted⟩
  · rw [← hpower]
    exact hregisters 0
  · rw [← hsp]
    show ((m.after 4).reg 7).toNat = ((fun r => (m.reg r).toNat) 7 + 1632240801) % 256
    rw [← hsum]
    exact hregisters 7

end Machine

end ByteMachine
