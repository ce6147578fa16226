/-!
# Numerals

Numbers as the machine's messages and its trace write them: a base, a lead such as `0x`, and a
least number of places that is filled up with zeros. A numeral is never empty (zero has one digit)
and is never cut, so a number that needs more places than the least simply takes them.

`Numeral.Style` is the record of those choices and `Style.write` the text.
-/

namespace ByteMachine

namespace Numeral

/-- The digits of `n` in base `b`, most significant first. Below base two, where no number could be
split, the number itself is the only digit. -/
def digits (b n : Nat) : List Nat :=
  if _h : 1 < b ∧ b ≤ n then digits b (n / b) ++ [n % b] else [n]
termination_by n
decreasing_by exact Nat.div_lt_self (by omega) (by omega)

/-- The symbol of a digit below sixteen: a decimal digit, then the letters from `a` on. -/
def symbol (capital : Bool) (d : Nat) : Char :=
  if capital then d.digitChar.toUpper else d.digitChar

/-- How a number is written. -/
structure Style where
  base : Nat := 10
  /-- Letters above nine are capitals. -/
  capital : Bool := false
  /-- Text in front of the digits, such as `0x`. -/
  lead : String := ""
  /-- The least number of digits; shorter numerals are filled up with zeros in front. -/
  places : Nat := 1

/-- The digits of `n` in a style, filled up to its least number of places. -/
def Style.symbols (s : Style) (n : Nat) : List Char :=
  let written := (digits s.base n).map (symbol s.capital)
  List.replicate (s.places - written.length) '0' ++ written

/-- The numeral of `n`: the lead, then the digits. -/
def Style.write (s : Style) (n : Nat) : String :=
  s.lead ++ String.ofList (s.symbols n)

/-- Plain decimal. -/
def decimal : Style := {}

/-- A byte in a trace line: two capital hexadecimal digits. -/
def hexPair : Style := { base := 16, capital := true, places := 2 }

/-- A place in memory as faults name it: `0x` and at least two hexadecimal digits. -/
def location : Style := { base := 16, lead := "0x", places := 2 }

/-- An address of any size: `0x` and as many hexadecimal digits as it needs. -/
def address : Style := { base := 16, lead := "0x" }

/-- A field of a time of day: two digits. -/
def clock : Style := { places := 2 }

/-- An opcode byte, all eight bits shown after `0b`. -/
def bits : Style := { base := 2, lead := "0b", places := 8 }

/-- The two hexadecimal digits of a byte. -/
def hexByte (byte : UInt8) : String := hexPair.write byte.toNat

end Numeral

/-- Plain decimal text of a number. -/
def decimal (n : Nat) : String := Numeral.decimal.write n

end ByteMachine
