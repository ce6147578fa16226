import ByteMachine.Numeral

/-!
# Numerals and their digits

The digits of a number in a base, as symbols, are those of the standard library (`map_digits`), so
plain decimal text is what `toString` gives (`decimal_eq_toString`).

A numeral can be read back (`value_symbols`): each symbol up to base sixteen stands for one digit, in
small letters or capitals, and the zeros that fill it up count for nothing. So in a style with such a
base (`Style.Readable`) different numbers have different numerals, however many places they take
(`write_injective`). Within a text a numeral ends at the first character that is neither a digit nor a
letter (`write_append_inj`).
-/

namespace ByteMachine

namespace Numeral

/-- The digits of a number, written with the letters of a base, are its digits in that base. -/
theorem map_digits {b : Nat} (hb : 1 < b) (n : Nat) :
    (digits b n).map Nat.digitChar = Nat.toDigits b n := by
  induction n using Nat.strongRecOn with
  | ind n ih =>
    unfold digits
    by_cases hn : b ≤ n
    · have hless : n / b < n := Nat.div_lt_self (by omega) hb
      rw [dif_pos ⟨hb, hn⟩, List.map_append, ih _ hless, Nat.toDigits_of_base_le hb hn]
      rfl
    · rw [dif_neg (fun h => hn h.2), Nat.toDigits_of_lt_base (Nat.not_le.1 hn)]
      rfl

/-- In plain decimal there is no room to fill up: no number is without a digit. -/
theorem symbols_decimal (n : Nat) : decimal.symbols n = Nat.toDigits 10 n := by
  have hdigits : (digits decimal.base n).map (symbol decimal.capital) = Nat.toDigits 10 n :=
    map_digits (by decide) n
  have hroom : decimal.places - (Nat.toDigits 10 n).length = 0 :=
    Nat.sub_eq_zero_of_le Nat.length_toDigits_pos
  simp only [Style.symbols, hdigits, hroom, List.replicate_zero, List.nil_append]

/-! ## Reading a numeral back -/

/-- The digit that a symbol stands for. -/
def digitOf (c : Char) : Nat :=
  if c.isDigit then c.toNat - '0'.toNat
  else if c.isUpper then c.toNat - 'A'.toNat + 10
  else c.toNat - 'a'.toNat + 10

/-- The number that symbols stand for in a base. -/
def value (b : Nat) (symbols : List Char) : Nat :=
  symbols.foldl (fun n c => n * b + digitOf c) 0

theorem digitOf_symbol (capital : Bool) {d : Nat} (h : d < 16) : digitOf (symbol capital d) = d := by
  revert capital d
  decide

theorem isAlphanum_symbol (capital : Bool) {d : Nat} (h : d < 16) :
    (symbol capital d).isAlphanum = true := by
  revert capital d
  decide

theorem lt_of_mem_digits {b n d : Nat} (hb : 1 < b) (h : d ∈ digits b n) : d < b := by
  induction n using Nat.strongRecOn with
  | ind n ih =>
    unfold digits at h
    by_cases hn : b ≤ n
    · rw [dif_pos ⟨hb, hn⟩, List.mem_append, List.mem_singleton] at h
      rcases h with h | rfl
      · exact ih _ (Nat.div_lt_self (by omega) hb) h
      · exact Nat.mod_lt n (by omega)
    · rw [dif_neg (fun hboth => hn hboth.2), List.mem_singleton] at h
      omega

/-- One more digit behind. -/
theorem value_concat (b : Nat) (symbols : List Char) (c : Char) :
    value b (symbols ++ [c]) = value b symbols * b + digitOf c := by
  rw [value, List.foldl_append]
  rfl

/-- Zeros in front do not count. -/
theorem value_replicate_append (b count : Nat) (symbols : List Char) :
    value b (List.replicate count '0' ++ symbols) = value b symbols := by
  induction count with
  | zero => rfl
  | succ count ih =>
    have hzero : 0 * b + digitOf '0' = 0 := Nat.zero_mul b
    rw [List.replicate_succ, List.cons_append, value, List.foldl_cons, hzero]
    exact ih

theorem value_digits (capital : Bool) {b : Nat} (hb : 1 < b) (hb' : b ≤ 16) (n : Nat) :
    value b ((digits b n).map (symbol capital)) = n := by
  induction n using Nat.strongRecOn with
  | ind n ih =>
    unfold digits
    by_cases hn : b ≤ n
    · have hless : n / b < n := Nat.div_lt_self (by omega) hb
      have hlast : n % b < 16 := Nat.lt_of_lt_of_le (Nat.mod_lt n (Nat.zero_lt_of_lt hb)) hb'
      rw [dif_pos ⟨hb, hn⟩, List.map_append, List.map_singleton, value_concat, ih _ hless,
        digitOf_symbol capital hlast, Nat.div_add_mod']
    · have hdigit : digitOf (symbol capital n) = n := digitOf_symbol capital (by omega)
      rw [dif_neg (fun hboth => hn hboth.2), List.map_singleton, ← List.nil_append [symbol capital n],
        value_concat, hdigit]
      show 0 * b + n = n
      rw [Nat.zero_mul, Nat.zero_add]

/-- A style whose numerals can be read back: each symbol stands for one digit, and there are only
digits and letters in front of them. -/
structure Style.Readable (s : Style) : Prop where
  one_lt_base : 1 < s.base
  base_le : s.base ≤ 16
  isAlphanum_lead : ∀ c ∈ s.lead.toList, c.isAlphanum = true

theorem readable_decimal : decimal.Readable := ⟨by decide, by decide, nofun⟩

theorem readable_hexPair : hexPair.Readable := ⟨by decide, by decide, nofun⟩

theorem readable_location : location.Readable :=
  ⟨by decide, by decide, List.all_eq_true.1 (by decide)⟩

theorem readable_address : address.Readable :=
  ⟨by decide, by decide, List.all_eq_true.1 (by decide)⟩

theorem readable_bits : bits.Readable :=
  ⟨by decide, by decide, List.all_eq_true.1 (by decide)⟩

/-- Where the text follows a numeral, the numeral is at its end: the text begins with neither a digit
nor a letter. -/
def Delimits (text : String) : Prop := ∃ c rest, text.toList = c :: rest ∧ c.isAlphanum = false

variable {s : Style} (hs : s.Readable)
include hs

/-- A numeral stands for its number. -/
theorem value_symbols (n : Nat) : value s.base (s.symbols n) = n :=
  (value_replicate_append _ _ _).trans (value_digits s.capital hs.one_lt_base hs.base_le n)

/-- In one style, different numbers have different numerals. -/
theorem write_injective : Function.Injective s.write := by
  intro n n' h
  have hsymbols : s.symbols n = s.symbols n' :=
    String.ofList_injective ((String.append_right_inj s.lead).1 h)
  rw [← value_symbols hs n, hsymbols, value_symbols hs n']

/-- A numeral has only digits and letters. -/
theorem isAlphanum_of_mem_write {n : Nat} {c : Char} (h : c ∈ (s.write n).toList) :
    c.isAlphanum = true := by
  rw [Style.write, String.toList_append, String.toList_ofList, List.mem_append, Style.symbols,
    List.mem_append, List.mem_replicate, List.mem_map] at h
  rcases h with h | ⟨-, rfl⟩ | ⟨d, hd, rfl⟩
  · exact hs.isAlphanum_lead c h
  · decide
  · have hdigit := lt_of_mem_digits hs.one_lt_base hd
    exact isAlphanum_symbol s.capital (Nat.lt_of_lt_of_le hdigit hs.base_le)

theorem not_mem_write {c : Char} (hc : c.isAlphanum = false) (n : Nat) :
    c ∉ (s.write n).toList := by
  intro hmem
  have := isAlphanum_of_mem_write hs hmem
  rw [hc] at this
  cases this

/-! ## Numerals in a text -/

theorem takeWhile_write_append {text : String} (htext : Delimits text) (n : Nat) (rest : String) :
    (s.write n ++ (text ++ rest)).toList.takeWhile Char.isAlphanum = (s.write n).toList := by
  obtain ⟨c, tail, htail, hc⟩ := htext
  have hstop : ¬ c.isAlphanum = true := by
    rw [hc]
    exact Bool.false_ne_true
  rw [String.toList_append, String.toList_append, htail, List.cons_append,
    List.takeWhile_append_of_pos fun _ => isAlphanum_of_mem_write hs,
    List.takeWhile_cons_of_neg hstop, List.append_nil]

/-- A numeral with such a text behind it can be told from what follows, whatever that is. -/
theorem write_append_inj {text : String} (htext : Delimits text) {n n' : Nat} {rest rest' : String}
    (h : s.write n ++ (text ++ rest) = s.write n' ++ (text ++ rest')) : n = n' ∧ rest = rest' := by
  have hnumeral : (s.write n).toList = (s.write n').toList := by
    rw [← takeWhile_write_append hs htext n rest, h, takeWhile_write_append hs htext n' rest']
  obtain rfl : n = n' := write_injective hs (String.toList_inj.1 hnumeral)
  exact ⟨rfl, (String.append_right_inj _).1 ((String.append_right_inj _).1 h)⟩

end Numeral

/-- Plain decimal text is that of the standard library. -/
theorem decimal_eq_toString (n : Nat) : decimal n = toString n := by
  unfold decimal Numeral.Style.write
  rw [Numeral.symbols_decimal, Nat.toString_eq_ofList_toDigits]
  exact String.empty_append

end ByteMachine
