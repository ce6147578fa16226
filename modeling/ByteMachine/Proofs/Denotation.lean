import ByteMachine.Proofs.Literal
import Mathlib.Data.Nat.Digits.Defs

/-!
# The number that a token denotes

`Literal.Spells` generates the literals of one byte from its digits. Here a token is judged as it
stands: behind at most one base mark it is a numeral (`IsNumeral`), and what it denotes is the number
of its digits in positional notation, which may be of any size. A token denotes one number at most
(`Denotes.unique`). Reading answers with that number if it is a byte, and with nothing if it is not or
if there is none (`parse?_reads_denoted_number`).

How many digits there are decides nothing, because leading zeros are free. All the same the number
need not be known in full: a byte that takes in one digit after the other, and gives up at the first
that it has no room for, ends with the same answer (`parse?_eq_some_iff_foldlM`). The induction is from
the last digit, and what carries it is that a number which has outgrown a byte never comes back.
-/

namespace ByteMachine.Literal

/-- Digits with separators among them: something, and a digit at either end. -/
structure IsNumeral (body : List Char) : Prop where
  ne_nil : body ≠ []
  symbols : ∀ c ∈ body, c = '0' ∨ c = '1' ∨ c = '_'
  head : body.head? ≠ some '_'
  last : body.getLast? ≠ some '_'

/-- The number of binary digits, the last of them the ones. -/
def number (digits : List Char) : Nat :=
  Nat.ofDigits 2 (digits.reverse.map fun d => d.toNat - '0'.toNat)

/-- The token, less at most one base mark in front, is a numeral whose digits, separators dropped, are
those of the number. -/
def Denotes (token : List Char) (n : Nat) : Prop :=
  ∃ mark ∈ marks, ∃ body, token = mark ++ body ∧ IsNumeral body ∧
    number (body.filter (· != '_')) = n

/-! ## Numerals -/

theorem isSymbol_iff {c : Char} : isSymbol c = true ↔ c = '0' ∨ c = '1' ∨ c = '_' := by
  simp [isSymbol, or_assoc]

/-- Numerals are the bodies that reading takes for well formed. -/
theorem isNumeral_iff {body : List Char} : IsNumeral body ↔ wellFormed body = true := by
  rw [wellFormed_eq_true_iff, List.all_eq_true]
  constructor
  · rintro ⟨hne, hsymbols, hhead, hlast⟩
    exact ⟨hne, hhead, hlast, fun c hc => isSymbol_iff.2 (hsymbols c hc)⟩
  · rintro ⟨hne, hhead, hlast, hsymbols⟩
    exact ⟨hne, fun c hc => isSymbol_iff.1 (hsymbols c hc), hhead, hlast⟩

/-- One more digit behind. -/
theorem number_concat (digits : List Char) (d : Char) :
    number (digits ++ [d]) = 2 * number digits + (d.toNat - '0'.toNat) := by
  rw [number, List.reverse_append, List.reverse_singleton, List.singleton_append, List.map_cons,
    Nat.ofDigits_cons, Nat.add_comm]
  rfl

/-- Read from the first digit on, the number is that of positional notation. -/
theorem ofDigitChars_eq_number (digits : List Char) :
    Nat.ofDigitChars 2 digits 0 = number digits := by
  induction digits using List.reverseRecOn with
  | nil => rfl
  | append_singleton digits d ih =>
    rw [Nat.ofDigitChars_append, Nat.ofDigitChars_cons, Nat.ofDigitChars_nil, ih, number_concat]

/-- A numeral spells the number of its digits. -/
theorem IsNumeral.value_eq {body : List Char} (h : IsNumeral body) :
    value body = number (body.filter (· != '_')) := by
  have hbinary := binary_filter (wellFormed_eq_true_iff.1 (isNumeral_iff.1 h)).2.2.2
  rw [← value_filter, value_eq_ofDigitChars hbinary, ofDigitChars_eq_number]

/-! ## What is read -/

/-- A token denotes the number that its body spells. -/
theorem denotes_iff {token : List Char} {n : Nat} :
    Denotes token n ↔ wellFormed (body token) = true ∧ value (body token) = n := by
  constructor
  · rintro ⟨mark, hmark, s, rfl, hs, rfl⟩
    have hok := isNumeral_iff.1 hs
    rw [body_append hmark (wellFormed_eq_true_iff.1 hok).2.2.2]
    exact ⟨hok, hs.value_eq⟩
  · rintro ⟨hok, rfl⟩
    obtain ⟨mark, hmark, htoken⟩ := exists_mark token
    have hnumeral := isNumeral_iff.2 hok
    exact ⟨mark, hmark, body token, htoken, hnumeral, hnumeral.value_eq.symm⟩

/-- No token denotes two numbers. -/
theorem Denotes.unique {token : List Char} {m n : Nat} (hm : Denotes token m)
    (hn : Denotes token n) : m = n :=
  (denotes_iff.1 hm).2.symm.trans (denotes_iff.1 hn).2

/-- What is read is what the token denotes. -/
theorem parse?_eq_some_iff_denotes {token : List Char} {byte : UInt8} :
    parse? token = some byte ↔ Denotes token byte.toNat :=
  parse?_eq_some_iff_value.trans denotes_iff.symm

/-- A number that fits in a byte is read. -/
theorem Denotes.parse?_eq {token : List Char} {n : Nat} (h : Denotes token n) (hn : n < 256) :
    parse? token = some (UInt8.ofNat n) := by
  rw [parse?_eq_some_iff_denotes, UInt8.toNat_ofNat_of_lt' hn]
  exact h

/-- **Reading answers with the number that the token denotes.** It answers with a byte exactly if the
token denotes the byte's number, whatever the number of digits, and it answers with nothing exactly if
the token denotes no number or one of 256 or more. -/
theorem parse?_reads_denoted_number (token : List Char) :
    (∀ byte, parse? token = some byte ↔ Denotes token byte.toNat) ∧
      (parse? token = none ↔
        (∀ n, ¬ Denotes token n) ∨ ∃ n, Denotes token n ∧ 256 ≤ n) := by
  refine ⟨fun byte => parse?_eq_some_iff_denotes, ?_⟩
  constructor
  · intro hnone
    by_cases h : ∃ n, Denotes token n
    · obtain ⟨n, hn⟩ := h
      refine .inr ⟨n, hn, Nat.not_lt.1 fun hlt => ?_⟩
      rw [hn.parse?_eq hlt] at hnone
      cases hnone
    · exact .inl (not_exists.1 h)
  · intro h
    rw [Option.eq_none_iff_forall_ne_some]
    intro byte hbyte
    have hdenotes := parse?_eq_some_iff_denotes.1 hbyte
    rcases h with hno | ⟨n, hn, hle⟩
    · exact hno _ hdenotes
    · -- The number that is too large is the only one that the token denotes.
      rw [hn.unique hdenotes] at hle
      exact Nat.not_lt.2 hle byte.toNat_lt

example : parse? "0B000_000_000_000__11".toList = some 3 ∧ parse? "1_0000_0000".toList = none := by
  decide

/-! ## Room for one digit more -/

/-- The byte with one more binary digit behind it, if there is room for that. -/
def appendDigit? (byte : UInt8) (d : Char) : Option UInt8 :=
  let n := 2 * byte.toNat + (d.toNat - '0'.toNat)
  if n < 256 then some (UInt8.ofNat n) else none

theorem appendDigit?_eq_some_iff {byte after : UInt8} {d : Char} :
    appendDigit? byte d = some after ↔ 2 * byte.toNat + (d.toNat - '0'.toNat) = after.toNat := by
  rw [appendDigit?]
  generalize 2 * byte.toNat + (d.toNat - '0'.toNat) = n
  show (if n < 256 then some (UInt8.ofNat n) else none) = some after ↔ n = after.toNat
  rw [Option.ite_none_right_eq_some, Option.some.injEq]
  constructor
  · rintro ⟨hroom, rfl⟩
    exact (UInt8.toNat_ofNat_of_lt' hroom).symm
  · rintro rfl
    exact ⟨after.toNat_lt, UInt8.ofNat_toNat⟩

/-- Taking in digits one after the other ends with the byte that they are the number of. -/
theorem foldlM_appendDigit?_eq_some_iff {digits : List Char} {byte : UInt8} :
    digits.foldlM appendDigit? 0 = some byte ↔ number digits = byte.toNat := by
  induction digits using List.reverseRecOn generalizing byte with
  | nil =>
    show some (0 : UInt8) = some byte ↔ 0 = byte.toNat
    rw [Option.some.injEq, ← UInt8.toNat_inj, UInt8.toNat_zero]
  | append_singleton digits d ih =>
    simp only [List.foldlM_append, List.foldlM_cons, List.foldlM_nil, bind_pure, Option.bind_eq_bind,
      number_concat]
    rw [Option.bind_eq_some_iff]
    constructor
    · rintro ⟨before, hbefore, hd⟩
      rw [ih.1 hbefore]
      exact appendDigit?_eq_some_iff.1 hd
    · intro hbyte
      -- A number that has outgrown a byte never comes back to one.
      have hroom : number digits < 256 := by
        have := byte.toNat_lt
        omega
      have hbefore : (UInt8.ofNat (number digits)).toNat = number digits :=
        UInt8.toNat_ofNat_of_lt' hroom
      refine ⟨UInt8.ofNat (number digits), ih.2 hbefore.symm, appendDigit?_eq_some_iff.2 ?_⟩
      rw [hbefore, hbyte]

/-- **A byte is room enough to read in.** A token is read as a byte exactly if it is well formed and
its digits, taken in one after the other, end with that byte. -/
theorem parse?_eq_some_iff_foldlM {token : List Char} {byte : UInt8} :
    parse? token = some byte ↔
      wellFormed (body token) = true ∧
        ((body token).filter (· != '_')).foldlM appendDigit? 0 = some byte := by
  rw [parse?_eq_some_iff_value]
  refine and_congr_right fun hok => ?_
  rw [foldlM_appendDigit?_eq_some_iff, (isNumeral_iff.2 hok).value_eq]

end ByteMachine.Literal
