import ByteMachine.Source
import Mathlib.Data.List.Basic
import Mathlib.Data.List.Induction

/-!
# How bytes are spelled

`Literal.Spells` generates the literals of a byte: an optional base mark, any number of zeros, the
byte's binary digits, and separators anywhere between two of these digits. `parse?_eq_some_iff` says
that reading accepts exactly those.

Reading takes separators out and adds up what is left. For the way back, digits without separators
are leading zeros and the binary digits of the number they spell (`exists_zeros`), by induction from
the last digit; and a body without a separator at either end is its digits with separators between
them (`separated_filter`), by induction from the first.
-/

namespace ByteMachine.Literal

/-- The digits, with any number of separators between two of them. -/
inductive Separated : List Char → List Char → Prop
  | last (d : Char) : Separated [d] [d]
  | digit (d : Char) (n : Nat) {digits body : List Char} (h : Separated digits body) :
      Separated (d :: digits) (d :: (List.replicate n '_' ++ body))

/-- What may stand in front of the digits. -/
def marks : List (List Char) := [[], ['0', 'b'], ['0', 'B']]

/-- The token is a literal of the byte. -/
def Spells (byte : UInt8) (token : List Char) : Prop :=
  ∃ mark ∈ marks, ∃ zeros body,
    Separated (List.replicate zeros '0' ++ Nat.toDigits 2 byte.toNat) body ∧ token = mark ++ body

/-- The text consists of binary digits. -/
def Binary (digits : List Char) : Prop := ∀ d ∈ digits, d = '0' ∨ d = '1'

/-- Take the last digit off. -/
theorem Binary.of_concat {digits : List Char} {d : Char} (h : Binary (digits ++ [d])) :
    Binary digits ∧ (d = '0' ∨ d = '1') :=
  ⟨fun c hc => h c (List.mem_append_left _ hc),
    h d (List.mem_append_right _ (List.mem_singleton_self d))⟩

theorem ne_separator {d : Char} (h : d = '0' ∨ d = '1') : d ≠ '_' := by
  rcases h with rfl | rfl
  · decide
  · decide

/-! ## The number that digits spell -/

theorem value_concat {d : Char} (hd : d ≠ '_') (digits : List Char) :
    value (digits ++ [d]) = 2 * value digits + if d == '1' then 1 else 0 := by
  have hkeep : List.filter (· != '_') [d] = [d] := by simp [hd]
  unfold value
  rw [List.filter_append, hkeep, List.foldl_append]
  rfl

theorem value_filter (body : List Char) : value (body.filter (· != '_')) = value body := by
  unfold value
  rw [List.filter_filter]
  simp

/-- A number less than two has a binary digit. -/
theorem digitChar_of_lt {n : Nat} (h : n < 2) : n.digitChar = '0' ∨ n.digitChar = '1' := by
  have hcases : n = 0 ∨ n = 1 := by omega
  rcases hcases with rfl | rfl
  · exact .inl rfl
  · exact .inr rfl

/-- The digits of a number are binary digits. -/
theorem binary_toDigits (n : Nat) : Binary (Nat.toDigits 2 n) := by
  induction n using Nat.strongRecOn with
  | ind n ih =>
    intro d hd
    by_cases hn : n < 2
    · rw [Nat.toDigits_of_lt_base hn, List.mem_singleton] at hd
      rw [hd]
      exact digitChar_of_lt hn
    · have hle : 2 ≤ n := Nat.not_lt.1 hn
      rw [Nat.toDigits_of_base_le (by decide) hle, List.mem_append, List.mem_singleton] at hd
      rcases hd with hd | rfl
      · exact ih (n / 2) (by omega) d hd
      · exact digitChar_of_lt (Nat.mod_lt n (by decide))

/-- So do leading zeros and the digits of a number. -/
theorem binary_replicate_append (zeros n : Nat) :
    Binary (List.replicate zeros '0' ++ Nat.toDigits 2 n) := by
  intro d hd
  rcases List.mem_append.1 hd with hzero | hdigit
  · exact .inl (List.eq_of_mem_replicate hzero)
  · exact binary_toDigits n d hdigit

/-- Without separators, the number is the one that the digits stand for. -/
theorem value_eq_ofDigitChars {digits : List Char} (h : Binary digits) :
    value digits = Nat.ofDigitChars 2 digits 0 := by
  induction digits using List.reverseRecOn with
  | nil => rfl
  | append_singleton digits d ih =>
    obtain ⟨hrest, hd⟩ := h.of_concat
    rw [value_concat (ne_separator hd), ih hrest, Nat.ofDigitChars_append, Nat.ofDigitChars_cons,
      Nat.ofDigitChars_nil]
    rcases hd with rfl | rfl
    · rfl
    · rfl

/-- Leading zeros and the digits of a number spell it. -/
theorem value_replicate_append_toDigits (zeros n : Nat) :
    value (List.replicate zeros '0' ++ Nat.toDigits 2 n) = n := by
  rw [value_eq_ofDigitChars (binary_replicate_append zeros n), Nat.ofDigitChars_append,
    Nat.ofDigitChars_replicate_zero, Nat.mul_zero,
    Nat.ofDigitChars_toDigits (Nat.lt_succ_self 1) (by decide)]

/-- One more digit behind the digits of a number, not counting leading zeros. -/
theorem exists_zeros_concat (zeros n : Nat) {d : Char} (hd : d = '0' ∨ d = '1') :
    ∃ z, List.replicate zeros '0' ++ Nat.toDigits 2 n ++ [d] =
      List.replicate z '0' ++ Nat.toDigits 2 (2 * n + if d == '1' then 1 else 0) := by
  by_cases hn : n = 0
  · -- The digit of zero becomes a leading zero.
    refine ⟨zeros + 1, ?_⟩
    rw [hn, List.replicate_succ']
    rcases hd with rfl | rfl
    · rfl
    · rfl
  · refine ⟨zeros, ?_⟩
    rw [List.append_assoc]
    have hpos : 0 < n := Nat.pos_of_ne_zero hn
    have hbase : 1 < 2 := Nat.lt_succ_self 1
    rcases hd with rfl | rfl
    · exact congrArg _ (Nat.toDigits_append_toDigits hbase hpos (Nat.zero_lt_succ 1))
    · exact congrArg _ (Nat.toDigits_append_toDigits hbase hpos hbase)

/-- Binary digits are leading zeros and the digits of the number they spell. -/
theorem exists_zeros {digits : List Char} (h : Binary digits) (hne : digits ≠ []) :
    ∃ zeros, digits = List.replicate zeros '0' ++ Nat.toDigits 2 (value digits) := by
  induction digits using List.reverseRecOn with
  | nil => exact absurd rfl hne
  | append_singleton digits d ih =>
    obtain ⟨hrest, hd⟩ := h.of_concat
    rw [value_concat (ne_separator hd)]
    by_cases hnil : digits = []
    · refine ⟨0, ?_⟩
      rw [hnil]
      rcases hd with rfl | rfl
      · rfl
      · rfl
    · obtain ⟨zeros, hzeros⟩ := ih hrest hnil
      obtain ⟨z, hz⟩ := exists_zeros_concat zeros (value digits) hd
      refine ⟨z, ?_⟩
      rw [← hz, ← hzeros]

/-! ## Separators -/

theorem filter_cons_of_ne {d : Char} (hd : d ≠ '_') (rest : List Char) :
    (d :: rest).filter (· != '_') = d :: rest.filter (· != '_') :=
  List.filter_cons_of_pos (bne_iff_ne.2 hd)

/-- Taking the separators out gives the digits back. -/
theorem Separated.filter_eq {digits body : List Char} (h : Separated digits body)
    (hdigits : Binary digits) : body.filter (· != '_') = digits := by
  induction h with
  | last d =>
    have hd := ne_separator (hdigits d (List.mem_singleton_self d))
    rw [filter_cons_of_ne hd, List.filter_nil]
  | digit d n h ih =>
    have hd := ne_separator (hdigits d List.mem_cons_self)
    have hdrop : (List.replicate n '_').filter (· != '_') = [] := by simp
    rw [filter_cons_of_ne hd, List.filter_append, hdrop, List.nil_append,
      ih fun c hc => hdigits c (List.mem_cons_of_mem _ hc)]

theorem Separated.ne_nil {digits body : List Char} (h : Separated digits body) : body ≠ [] := by
  cases h <;> exact List.cons_ne_nil _ _

/-- The digits at both ends are those of the body. -/
theorem Separated.ends {digits body : List Char} (h : Separated digits body) :
    body.head? = digits.head? ∧ body.getLast? = digits.getLast? := by
  induction h with
  | last d => exact ⟨rfl, rfl⟩
  | @digit d n digits body h ih =>
    refine ⟨rfl, ?_⟩
    have hdigits : digits ≠ [] := by
      rintro rfl
      cases h
    have hrest : List.replicate n '_' ++ body ≠ [] := by
      intro hnil
      exact h.ne_nil (List.append_eq_nil_iff.1 hnil).2
    rw [List.getLast?_cons_of_ne_nil hrest, List.getLast?_append_of_ne_nil _ h.ne_nil, ih.2,
      List.getLast?_cons_of_ne_nil hdigits]

theorem Separated.all_isSymbol {digits body : List Char} (h : Separated digits body)
    (hdigits : Binary digits) : body.all isSymbol = true := by
  rw [List.all_eq_true]
  intro c hc
  by_cases hsep : c = '_'
  · subst hsep
    rfl
  · have hmem : c ∈ body.filter (· != '_') := List.mem_filter.2 ⟨hc, by simp [hsep]⟩
    rw [h.filter_eq hdigits] at hmem
    rcases hdigits c hmem with rfl | rfl
    · rfl
    · rfl

/-- One more separator behind the first digit. -/
theorem Separated.insert {d : Char} {digits body : List Char} (h : Separated (d :: digits) (d :: body))
    (hne : body ≠ []) : Separated (d :: digits) (d :: '_' :: body) := by
  cases h with
  | last => exact absurd rfl hne
  | digit d n h => exact .digit d (n + 1) h

/-- A body without a separator at its ends is its digits with separators between them. -/
theorem separated_filter {d : Char} {rest : List Char} (hd : d ≠ '_')
    (hlast : (d :: rest).getLast? ≠ some '_') :
    Separated ((d :: rest).filter (· != '_')) (d :: rest) := by
  -- The induction is on what follows the first digit, so that a separator can be put in behind it.
  induction rest generalizing d with
  | nil =>
    rw [filter_cons_of_ne hd]
    exact .last d
  | cons c rest ih =>
    rw [List.getLast?_cons_of_ne_nil (List.cons_ne_nil c rest)] at hlast
    by_cases hc : c = '_'
    · subst hc
      have hne : rest ≠ [] := by
        rintro rfl
        exact hlast rfl
      have hshorter : (d :: rest).getLast? ≠ some '_' := by
        rw [List.getLast?_cons_of_ne_nil hne] at hlast ⊢
        exact hlast
      have h := ih hd hshorter
      rw [filter_cons_of_ne hd] at h ⊢
      have hdrop : ('_' :: rest).filter (· != '_') = rest.filter (· != '_') := rfl
      rw [hdrop]
      exact h.insert hne
    · have h := ih hc hlast
      rw [filter_cons_of_ne hd]
      exact .digit d 0 h

/-! ## Literals -/

theorem wellFormed_eq_true_iff {body : List Char} :
    wellFormed body = true ↔
      body ≠ [] ∧ body.head? ≠ some '_' ∧ body.getLast? ≠ some '_' ∧ body.all isSymbol = true := by
  simp [wellFormed, and_assoc]

/-- Digits with separators between them are well formed. -/
theorem Separated.wellFormed {digits body : List Char} (h : Separated digits body)
    (hdigits : Binary digits) : wellFormed body = true := by
  have hends := h.ends
  have hmem {d : Char} (hd : d ∈ digits) : d ≠ '_' := ne_separator (hdigits d hd)
  refine wellFormed_eq_true_iff.2 ⟨h.ne_nil, ?_, ?_, h.all_isSymbol hdigits⟩
  · intro hhead
    rw [hends.1] at hhead
    exact hmem (List.mem_of_mem_head? hhead) rfl
  · intro hlast
    rw [hends.2] at hlast
    exact hmem (List.mem_of_mem_getLast? hlast) rfl

/-- What is well formed is digits with separators between them. -/
theorem separated_of_wellFormed {body : List Char} (h : wellFormed body = true) :
    Separated (body.filter (· != '_')) body := by
  obtain ⟨hne, hhead, hlast, -⟩ := wellFormed_eq_true_iff.1 h
  cases body with
  | nil => exact absurd rfl hne
  | cons d rest =>
    have hd : d ≠ '_' := by
      rintro rfl
      exact hhead rfl
    exact separated_filter hd hlast

theorem binary_filter {body : List Char} (h : body.all isSymbol = true) :
    Binary (body.filter (· != '_')) := by
  intro d hd
  obtain ⟨hmem, hsep⟩ := List.mem_filter.1 hd
  have hsymbol := List.all_eq_true.1 h d hmem
  simpa [isSymbol, bne_iff_ne.1 hsep] using hsymbol

theorem mem_marks {mark : List Char} :
    mark ∈ marks ↔ mark = [] ∨ mark = ['0', 'b'] ∨ mark = ['0', 'B'] := by
  simp [marks]

/-- A mark is taken off, and nothing else is taken for one. -/
theorem body_append {mark s : List Char} (hmark : mark ∈ marks) (hs : s.all isSymbol = true) :
    body (mark ++ s) = s := by
  rcases mem_marks.1 hmark with rfl | rfl | rfl
  · rw [List.nil_append]
    -- No symbol is a letter, so the digits themselves cannot begin with a mark.
    unfold body
    split
    · simp [isSymbol] at hs
    · simp [isSymbol] at hs
    · rfl
  · rfl
  · rfl

theorem exists_mark (token : List Char) : ∃ mark ∈ marks, token = mark ++ body token := by
  unfold body
  split
  · exact ⟨['0', 'b'], mem_marks.2 (.inr (.inl rfl)), rfl⟩
  · exact ⟨['0', 'B'], mem_marks.2 (.inr (.inr rfl)), rfl⟩
  · exact ⟨[], mem_marks.2 (.inl rfl), rfl⟩

/-- Nothing else occurs in a literal. -/
theorem Spells.mem_cases {byte : UInt8} {token : List Char} (h : Spells byte token) {c : Char}
    (hc : c ∈ token) : c = '0' ∨ c = '1' ∨ c = '_' ∨ c = 'b' ∨ c = 'B' := by
  obtain ⟨mark, hmark, zeros, body, hseparated, rfl⟩ := h
  rcases List.mem_append.1 hc with hc | hc
  · rcases mem_marks.1 hmark with rfl | rfl | rfl
    · exact absurd hc List.not_mem_nil
    · simp only [List.mem_cons, List.not_mem_nil, or_false] at hc
      tauto
    · simp only [List.mem_cons, List.not_mem_nil, or_false] at hc
      tauto
  · have hsymbols := hseparated.all_isSymbol (binary_replicate_append _ _)
    have hsymbol := List.all_eq_true.1 hsymbols c hc
    simp only [isSymbol, Bool.or_eq_true, beq_iff_eq] at hsymbol
    tauto

theorem Spells.ne_nil {byte : UInt8} {token : List Char} (h : Spells byte token) : token ≠ [] := by
  obtain ⟨mark, -, zeros, body, hseparated, rfl⟩ := h
  intro hnil
  exact hseparated.ne_nil (List.append_eq_nil_iff.1 hnil).2

/-! ## Reading -/

/-- A token is read as the number that its body spells, if that fits in a byte. -/
theorem parse?_eq_some_iff_value {token : List Char} {byte : UInt8} :
    parse? token = some byte ↔
      wellFormed (body token) = true ∧ value (body token) = byte.toNat := by
  rw [parse?]
  generalize body token = s
  show (if (wellFormed s && decide (value s ≤ 255)) = true then _ else _) = some byte ↔ _
  rw [Option.ite_none_right_eq_some, Bool.and_eq_true, decide_eq_true_eq, and_assoc, Option.some.injEq]
  refine and_congr_right fun _ => ?_
  constructor
  · rintro ⟨hle, rfl⟩
    rw [UInt8.toNat_ofNat_of_lt' (Nat.lt_succ_of_le hle)]
  · intro hvalue
    rw [hvalue]
    exact ⟨Nat.le_of_lt_succ byte.toNat_lt, UInt8.ofNat_toNat⟩

/-- A literal is read as its byte. -/
theorem Spells.parse?_eq {byte : UInt8} {token : List Char} (h : Spells byte token) :
    parse? token = some byte := by
  obtain ⟨mark, hmark, zeros, s, hseparated, rfl⟩ := h
  have hbinary := binary_replicate_append zeros byte.toNat
  have hvalue : value s = byte.toNat := by
    rw [← value_filter, hseparated.filter_eq hbinary, value_replicate_append_toDigits]
  rw [parse?_eq_some_iff_value, body_append hmark (hseparated.all_isSymbol hbinary)]
  exact ⟨hseparated.wellFormed hbinary, hvalue⟩

/-- What is read as a byte is a literal of it. -/
theorem spells_of_parse?_eq {byte : UInt8} {token : List Char} (h : parse? token = some byte) :
    Spells byte token := by
  obtain ⟨mark, hmark, htoken⟩ := exists_mark token
  obtain ⟨hok, hvalue⟩ := parse?_eq_some_iff_value.1 h
  generalize body token = s at hok hvalue htoken
  have hseparated := separated_of_wellFormed hok
  have hbinary := binary_filter (wellFormed_eq_true_iff.1 hok).2.2.2
  have hne : s.filter (· != '_') ≠ [] := by
    intro hnil
    rw [hnil] at hseparated
    cases hseparated
  obtain ⟨zeros, hzeros⟩ := exists_zeros hbinary hne
  rw [value_filter, hvalue] at hzeros
  rw [hzeros] at hseparated
  exact ⟨mark, hmark, zeros, s, hseparated, htoken⟩

/-- Reading accepts exactly the literals. -/
theorem parse?_eq_some_iff {token : List Char} {byte : UInt8} :
    parse? token = some byte ↔ Spells byte token :=
  ⟨spells_of_parse?_eq, Spells.parse?_eq⟩

end ByteMachine.Literal
