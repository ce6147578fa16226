import ByteMachine.Proofs.Effect
import ByteMachine.Run

/-!
# Steps in a row

`Machine.after` is the machine after a number of steps, whatever each of them came to, and
`Machine.observedIn` what an observer sees of them. Steps in a row may be taken apart anywhere
(`after_add`, `observedIn_add`, `runsFor_add`). A run is steps in a row up to the first that does
not leave the machine running: `runFor_eq_some` reads off a finished run how many steps that were,
what the last one came to, and that the machine and the observations are those of the steps.

The program counter never gets further than one past the last address (`pc_after_le`).
-/

namespace ByteMachine

/-- How a run ends with a step, if it does. -/
def Outcome.ending? (outcome : Outcome State) : Option (Except Fault Unit) :=
  match outcome.result with
  | .error fault => some (.error fault)
  | .ok .running => none
  | .ok _ => some (.ok ())

theorem Outcome.ending?_eq_none_iff {outcome : Outcome State} :
    outcome.ending? = none ↔ outcome.result = .ok .running := by
  rcases outcome with ⟨_ | (_ | _ | _), _, _⟩ <;> simp [ending?]

theorem Outcome.ending?_eq_error_iff {outcome : Outcome State} {fault : Fault} :
    outcome.ending? = some (.error fault) ↔ outcome.result = .error fault := by
  rcases outcome with ⟨_ | (_ | _ | _), _, _⟩ <;> simp [ending?]

namespace Machine

variable {ε : Type}

/-- The machine after a number of steps. -/
def after (m : Machine) : Nat → Machine
  | 0 => m
  | n + 1 => (m.after n).step.machine

/-- What an observer sees of a number of steps, in order. -/
def observedIn (observer : Observer ε) (m : Machine) : Nat → List ε
  | 0 => []
  | n + 1 => m.observedIn observer n ++ observer (m.after n) (m.after n).step

/-- The values printed in a number of steps. -/
def printedIn (m : Machine) (n : Nat) : List UInt8 := m.observedIn (fun _ o => o.printed) n

/-- Each of the first `n` steps leaves the machine running. -/
def RunsFor (m : Machine) (n : Nat) : Prop := ∀ k < n, (m.after k).step.result = .ok .running

instance (m : Machine) (n : Nat) : Decidable (m.RunsFor n) :=
  inferInstanceAs (Decidable (∀ k < n, (m.after k).step.result = .ok .running))

/-- A step that ends a run well has come to a halt. -/
theorem ending?_eq_ok_iff {m : Machine} :
    m.step.ending? = some (.ok ()) ↔ m.step.result = .ok .halted := by
  constructor
  · intro h
    rcases step_cases m with ⟨o, -, -, hstep⟩ | ⟨fault, hstep⟩
    · rw [hstep] at h ⊢
      cases o with
      | hlt => rfl
      | ldi | prn | add | mul | push | pop | call | ret => cases h
    · rw [hstep] at h
      cases h
  · intro h
    rw [Outcome.ending?, h]

/-! ## Taking steps apart -/

theorem after_add (m : Machine) (i k : Nat) : m.after (i + k) = (m.after i).after k := by
  induction k with
  | zero => rfl
  | succ k ih => rw [← Nat.add_assoc, after, ih, ← after]

theorem observedIn_add (observer : Observer ε) (m : Machine) (i k : Nat) :
    m.observedIn observer (i + k) =
      m.observedIn observer i ++ (m.after i).observedIn observer k := by
  induction k with
  | zero => exact (List.append_nil _).symm
  | succ k ih =>
    rw [← Nat.add_assoc, observedIn, ih, after_add, List.append_assoc, ← observedIn]

theorem runsFor_zero (m : Machine) : m.RunsFor 0 := fun k hk => absurd hk (Nat.not_lt_zero k)

theorem RunsFor.mono {m : Machine} {n k : Nat} (h : m.RunsFor n) (hk : k ≤ n) : m.RunsFor k :=
  fun j hj => h j (Nat.lt_of_lt_of_le hj hk)

theorem runsFor_add {m : Machine} {i k : Nat} :
    m.RunsFor (i + k) ↔ m.RunsFor i ∧ (m.after i).RunsFor k := by
  constructor
  · intro h
    refine ⟨h.mono (Nat.le_add_right i k), fun j hj => ?_⟩
    rw [← after_add]
    exact h (i + j) (by omega)
  · rintro ⟨hfirst, hrest⟩ j hj
    rcases Nat.lt_or_ge j i with hlt | hge
    · exact hfirst j hlt
    · obtain ⟨d, rfl⟩ := Nat.exists_eq_add_of_le hge
      rw [after_add]
      exact hrest d (by omega)

/-- Steps may be counted from either end. -/
theorem after_step (m : Machine) (n : Nat) : m.step.machine.after n = m.after (n + 1) := by
  rw [Nat.add_comm, after_add]
  rfl

theorem observedIn_step (observer : Observer ε) (m : Machine) (n : Nat) :
    observer m m.step ++ m.step.machine.observedIn observer n = m.observedIn observer (n + 1) := by
  rw [Nat.add_comm, observedIn_add]
  rfl

theorem runsFor_one {m : Machine} : m.RunsFor 1 ↔ m.step.result = .ok .running := by
  constructor
  · intro h
    exact h 0 Nat.zero_lt_one
  · intro h k hk
    obtain rfl := Nat.lt_one_iff.1 hk
    exact h

theorem RunsFor.of_step {m : Machine} {n : Nat} (hstep : m.step.result = .ok .running)
    (h : m.step.machine.RunsFor n) : m.RunsFor (n + 1) := by
  rw [Nat.add_comm, runsFor_add]
  exact ⟨runsFor_one.2 hstep, h⟩

/-! ## Runs -/

theorem runFor_succ (observer : Observer ε) (fuel : Nat) (m : Machine) (seen : Array ε) :
    m.runFor observer (fuel + 1) seen = match m.step.ending? with
      | some result => some ⟨result, m.step.machine, seen ++ observer m m.step⟩
      | none => m.step.machine.runFor observer fuel (seen ++ observer m m.step) := by
  rw [runFor, Outcome.ending?]
  rcases m.step.result with fault | (_ | _ | _) <;> rfl

/-- A finished run took steps that left the machine running, and then one that did not. -/
theorem runFor_eq_some {observer : Observer ε} {fuel : Nat} {m : Machine} {seen : Array ε}
    {run : Run ε} (h : m.runFor observer fuel seen = some run) :
    ∃ n < fuel, m.RunsFor n ∧ (m.after n).step.ending? = some run.result ∧
      run.machine = m.after (n + 1) ∧
      run.observed.toList = seen.toList ++ m.observedIn observer (n + 1) := by
  -- The observations so far are those of another run, so they vary along with the machine.
  induction fuel generalizing m seen with
  | zero => cases h
  | succ fuel ih =>
    rw [runFor_succ] at h
    cases hend : m.step.ending? with
    | some result =>
      rw [hend] at h
      cases h
      exact ⟨0, Nat.zero_lt_succ fuel, runsFor_zero m, hend, rfl, by simp [observedIn, after]⟩
    | none =>
      rw [hend] at h
      obtain ⟨n, hn, hruns, hlast, hmachine, hobserved⟩ := ih h
      refine ⟨n + 1, Nat.succ_lt_succ hn, .of_step (Outcome.ending?_eq_none_iff.1 hend) hruns, ?_,
        ?_, ?_⟩
      · rw [← after_step]
        exact hlast
      · rw [hmachine, after_step]
      · rw [hobserved, Array.toList_appendList, List.append_assoc, observedIn_step]

/-- What a finished run left, whatever the fuel it was given. -/
theorem runWith_eq_some {observer : Observer ε} {m : Machine} {run : Run ε}
    (h : m.runWith observer = some run) :
    ∃ n, m.RunsFor n ∧ (m.after n).step.ending? = some run.result ∧
      run.machine = m.after (n + 1) ∧ run.observed.toList = m.observedIn observer (n + 1) := by
  obtain ⟨n, -, hruns, hend, hmachine, hobserved⟩ := runFor_eq_some h
  exact ⟨n, hruns, hend, hmachine, hobserved⟩

/-! ## The program counter -/

/-- An operation that does not stop the machine or jump goes on behind itself. -/
theorem pcAfter_le {m : Machine} {o : Operation} (h : m.PointsAt o) : o.pcAfter m ≤ memorySize := by
  have hle := h.pc_add_width_le
  cases o with
  | hlt => exact Nat.le_of_succ_le hle
  | ldi | prn | add | mul | push | pop => exact hle
  | call r => exact Nat.le_of_lt (Memory.toNat_lt_memorySize _)
  | ret => exact Nat.le_of_lt (Memory.toNat_lt_memorySize _)

/-- No step takes the program counter further than one past the last address. -/
theorem pc_step_le {m : Machine} (h : m.pc ≤ memorySize) : m.step.machine.pc ≤ memorySize := by
  rcases step_cases m with ⟨o, ho, -, hstep⟩ | ⟨fault, hstep⟩
  · rw [hstep]
    exact pcAfter_le ho
  · rw [hstep]
    exact h

theorem pc_after_le {m : Machine} (h : m.pc ≤ memorySize) (n : Nat) :
    (m.after n).pc ≤ memorySize := by
  induction n with
  | zero => exact h
  | succ n ih => exact pc_step_le ih

end Machine

end ByteMachine
