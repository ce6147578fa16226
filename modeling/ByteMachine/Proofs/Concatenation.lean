import ByteMachine.Proofs.Source

/-!
# Sources one behind the other

Where a text consists of whole lines, a text behind it has its own lines, and the two can be read
one after the other (`read_append`). The second reading counts its lines from one all the same, so
the number of a malformed line that it finds has to be moved by as many lines as the first text has;
the column and the token are those of the line and do not move (`readLines_add`).

Both facts are inductions on the lines of the first text, a line at a time: a line that is malformed
ends either reading, and the byte of any other line comes in front of what the rest gives.
-/

namespace ByteMachine

/-- The malformed line as it is counted with more lines in front of its source. -/
def Malformed.below (m : Malformed) (lines : Nat) : Malformed := { m with line := m.line + lines }

namespace Source

/-- Counting from a later number on moves a malformed line and changes nothing else. -/
theorem readLines_add (number more : Nat) (lines : List (List Char)) :
    readLines (number + more) lines = (readLines number lines).mapError (·.below more) := by
  induction lines generalizing number with
  | nil => rfl
  | cons line rest ih =>
    rw [readLines_cons, readLines_cons, Nat.add_right_comm, ih]
    cases reading? line with
    | none => rfl
    | some byte? => cases readLines (number + 1) rest <;> rfl

/-- Lines are read up to any of them, and then from there on. -/
theorem readLines_append (number : Nat) (before after : List (List Char)) :
    readLines number (before ++ after) = do
      let earlier ← readLines number before
      let later ← readLines (number + before.length) after
      return earlier ++ later := by
  induction before generalizing number with
  | nil =>
    show readLines number after = (readLines number after).bind fun later => .ok ([] ++ later)
    cases readLines number after <;> rfl
  | cons line rest ih =>
    have hnumber : number + 1 + rest.length = number + (rest.length + 1) := by omega
    rw [List.cons_append, readLines_cons, readLines_cons, ih, hnumber, List.length_cons]
    cases reading? line with
    | none => rfl
    | some byte? =>
      cases readLines (number + 1) rest with
      | error m => rfl
      | ok earlier =>
        cases readLines (number + (rest.length + 1)) after with
        | error m => rfl
        | ok later => exact congrArg Except.ok (List.append_assoc _ _ _).symm

/-- Whole lines and the text behind them are read one after the other. -/
theorem read_append {a : List Char} (h : Text.Closed a) (b : List Char) :
    read (a ++ b) = do
      let earlier ← read a
      let later ← (read b).mapError (·.below (a.count '\n'))
      return earlier ++ later := by
  unfold read
  rw [h.lines_append, readLines_append, h.length_lines, readLines_add]

/-- **Reading distributes over concatenation at the end of a line.** Let a text be empty or end in a
line feed. With any text behind it, it is read as the bytes of the one and then those of the other.
If the first is malformed, it decides the answer; and if only the second is, its answer is moved by
the line feeds of the first. -/
theorem parse_append (a b : String) (h : a = "" ∨ a.toList.getLast? = some '\n') :
    (∀ p q, parse a = .ok p → parse b = .ok q → parse (a ++ b) = .ok (p ++ q)) ∧
    (∀ m, parse a = .error m → parse (a ++ b) = .error m) ∧
    (∀ p line offset token, parse a = .ok p → parse b = .error ⟨line, offset, token⟩ →
      parse (a ++ b) = .error ⟨line + a.toList.count '\n', offset, token⟩) := by
  have hclosed : Text.Closed a.toList := by
    refine Text.closed_iff.2 (h.imp_left ?_)
    rintro rfl
    rfl
  have hparse : parse (a ++ b) = do
      let earlier ← parse a
      let later ← (parse b).mapError (·.below (a.toList.count '\n'))
      return earlier ++ later := by
    rw [parse, String.toList_append]
    exact read_append hclosed b.toList
  rw [hparse]
  refine ⟨?_, ?_, ?_⟩
  · intro p q ha hb
    rw [ha, hb]
    rfl
  · intro m ha
    rw [ha]
    rfl
  · intro p line offset token ha hb
    rw [ha, hb]
    rfl

/-- The second text begins with a blank line that a carriage return ends as well, and its own second
line is the fourth of the whole. -/
theorem parse_append_of_malformed_second :
    "1\r\n# 2\n".toList.getLast? = some '\n' ∧ parse "1\r\n# 2\n" = .ok [1] ∧
      parse " \r\n  12 # 2\n" = .error ⟨2, 3, "12"⟩ ∧
      parse ("1\r\n# 2\n" ++ " \r\n  12 # 2\n") = .error ⟨4, 3, "12"⟩ := by
  have hlast : "1\r\n# 2\n".toList.getLast? = some '\n' := by decide +kernel
  have hfirst : parse "1\r\n# 2\n" = .ok [1] := by decide +kernel
  have hsecond : parse " \r\n  12 # 2\n" = .error ⟨2, 3, "12"⟩ := by decide +kernel
  exact ⟨hlast, hfirst, hsecond, (parse_append _ _ (.inr hlast)).2.2 [1] 2 3 "12" hfirst hsecond⟩

end Source

end ByteMachine
