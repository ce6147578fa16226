import ByteMachine.Numeral
import ByteMachine.Text

/-!
# Program sources

A program's source is a text with one byte per line, written as a binary literal. Everything from
`#` to the end of its line is a comment, and lines without a literal are skipped:

```text
10000010 # LDI R0,8
00000000
00001000
```

A literal is binary digits, with an optional `0b` or `0B` in front and underscores anywhere between the
first and the last digit. Leading zeros are free, so the length of a literal says nothing about its
value; only the value has to fit in a byte.

Reading is all or nothing: the first line that is neither skipped nor a literal is the answer, with the
place and the text of what stands there (`Malformed`). A diagnostic reports on one such place: the
message, the place, the line it names and a caret under the column. A place whose line is not in the
source is reported without a quotation.
-/

namespace ByteMachine

/-! ## Binary literals -/

namespace Literal

/-- The literal without its optional base mark; at most one is taken off. -/
def body : List Char → List Char
  | '0' :: 'b' :: digits => digits
  | '0' :: 'B' :: digits => digits
  | digits => digits

/-- The characters that a literal's body may hold. -/
def isSymbol (c : Char) : Bool := c == '0' || c == '1' || c == '_'

/-- The body is a numeral: not empty, made of digits and separators, with a digit at either end. -/
def wellFormed (digits : List Char) : Bool :=
  !digits.isEmpty && digits.head? != some '_' && digits.getLast? != some '_'
    && digits.all isSymbol

/-- The number that a body's digits spell, separators dropped. -/
def value (digits : List Char) : Nat :=
  (digits.filter (· != '_')).foldl (fun n c => 2 * n + if c == '1' then 1 else 0) 0

/-- The byte that a token spells, if it is a literal and its value fits. -/
def parse? (token : List Char) : Option UInt8 :=
  let digits := body token
  if wellFormed digits && value digits ≤ 255 then some (UInt8.ofNat (value digits)) else none

end Literal

/-! ## Sources -/

/-- A source line that is neither blank, a comment nor an eight-bit binary literal. -/
structure Malformed where
  /-- The line, counted from one. -/
  line : Nat
  /-- The column of the token's first byte, counted from one in bytes of UTF-8. -/
  offset : Nat
  /-- The text that is no literal. -/
  token : String
  deriving DecidableEq, Repr

/-- The text of a malformed line names the token; the place is left to the diagnostic. -/
def Malformed.message (m : Malformed) : String := "invalid number '" ++ m.token ++ "'"

namespace Source

/-- The part of a line before its comment. -/
def code (line : List Char) : List Char := line.takeWhile (· != '#')

/-- What a line holds, once its comment and the blanks around are gone. -/
def token (line : List Char) : List Char := Text.trim (code line)

/-- The column of a line's token: one more than the bytes of the blanks before it. -/
def offset (line : List Char) : Nat := Text.byteLength ((code line).takeWhile Text.isBlank) + 1

/-- The bytes of consecutive lines, of which the first is number `line`. -/
def readLines (line : Nat) : List (List Char) → Except Malformed (List UInt8)
  | [] => .ok []
  | text :: rest =>
    if token text = [] then readLines (line + 1) rest
    else
      match Literal.parse? (token text) with
      | some byte => (readLines (line + 1) rest).map (byte :: ·)
      | none => .error ⟨line, offset text, String.ofList (token text)⟩

/-- The bytes of a source given as characters. -/
def read (source : List Char) : Except Malformed (List UInt8) :=
  readLines 1 (Text.lines source)

/-- The bytes that a source spells, or its first malformed line. -/
def parse (source : String) : Except Malformed (List UInt8) := read source.toList

end Source

/-! ## Diagnostics -/

namespace Diagnostic

/-- The quotation of one line: the line behind its number, and a caret `offset - 1` blanks after
the gutter. -/
def quote (text : List Char) (line offset : Nat) : List Char :=
  "  |\n".toList ++ Text.padStart 4 (decimal line).toList ++ " | ".toList ++ text
    ++ "\n  | ".toList ++ List.replicate (offset - 1) ' ' ++ "^\n".toList

/-- The line of a source that a report quotes: number `line` counted from one (zero names the first
line as well), without the carriage returns at its end. -/
def quoted (source : List Char) (line : Nat) : Option (List Char) :=
  ((Text.lines source)[line - 1]?).map (Text.dropEndWhile (· == '\r'))

/-- The whole report, ended by a line feed. -/
def render (file source : String) (line offset : Nat) (message : String) : String :=
  "error: " ++ message ++ "\n --> " ++ file ++ ":" ++ decimal line ++ ":" ++ decimal offset ++ "\n"
    ++ match quoted source.toList line with
      | some text => String.ofList (quote text line offset)
      | none => ""

end Diagnostic

end ByteMachine
