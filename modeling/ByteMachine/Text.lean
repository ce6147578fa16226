/-!
# Texts

What programs, messages and templates need of a text, all of it on lists of characters.

- The characters of the Unicode property `White_Space` are blanks. They are trimmed off the ends of a
  text, and counted in bytes of UTF-8 (`byteLength`), the measure in which columns are given.
- A text is a sequence of lines, each ended by a line feed or by a carriage return and a line feed;
  what follows the last line feed, if anything, is a line too. `split` takes a text apart at its line
  feeds and keeps the ended lines apart from the rest, because a carriage return belongs to the
  terminator only where a line feed follows it.
- A text is set to a least width, in characters; one that is wide enough already is left alone.
- A text is found inside another, and put in the place of every occurrence of another. Occurrences are
  taken from the left and do not overlap: where one has been replaced, the search goes on behind it.
-/

namespace ByteMachine.Text

/-! ## Blanks -/

/-- The code points of the property `White_Space`, as ranges with both ends included. -/
def blankRanges : List (Nat × Nat) :=
  [(0x09, 0x0D), (0x20, 0x20), (0x85, 0x85), (0xA0, 0xA0), (0x1680, 0x1680), (0x2000, 0x200A),
    (0x2028, 0x2029), (0x202F, 0x202F), (0x205F, 0x205F), (0x3000, 0x3000)]

/-- The character is white space. -/
def isBlank (c : Char) : Bool :=
  blankRanges.any fun (low, high) => low ≤ c.toNat && c.toNat ≤ high

/-- The text without its longest end made of characters in `p`. -/
def dropEndWhile (p : Char → Bool) : List Char → List Char
  | [] => []
  | c :: rest =>
    match dropEndWhile p rest with
    | [] => if p c then [] else [c]
    | kept => c :: kept

/-- The text without blanks at its start. -/
def trimStart (s : List Char) : List Char := s.dropWhile isBlank

/-- The text without blanks at its end. -/
def trimEnd (s : List Char) : List Char := dropEndWhile isBlank s

/-- The text without blanks at either end. -/
def trim (s : List Char) : List Char := trimEnd (trimStart s)

/-- The size of a text in bytes of UTF-8. -/
def byteLength : List Char → Nat
  | [] => 0
  | c :: rest => c.utf8Size + byteLength rest

/-! ## Lines -/

/-- A text taken apart at its line feeds. -/
structure Split where
  /-- The pieces that a line feed ends, without it. -/
  ended : List (List Char)
  /-- What follows the last line feed. -/
  rest : List Char
  deriving DecidableEq, Repr

/-- Takes a text apart at its line feeds. -/
def split : List Char → Split
  | [] => ⟨[], []⟩
  | c :: s =>
    let tail := split s
    if c = '\n' then ⟨[] :: tail.ended, tail.rest⟩
    else
      match tail.ended with
      | [] => ⟨[], c :: tail.rest⟩
      | piece :: pieces => ⟨(c :: piece) :: pieces, tail.rest⟩

/-- A piece without one carriage return at its end. -/
def dropReturn (piece : List Char) : List Char :=
  if piece.getLast? = some '\r' then piece.dropLast else piece

/-- The lines of a text, without their terminators. -/
def lines (s : List Char) : List (List Char) :=
  let parts := split s
  parts.ended.map dropReturn ++ (if parts.rest = [] then [] else [parts.rest])

/-! ## Padding -/

/-- Spaces in front of the text, as many as it lacks of `width`. -/
def padStart (width : Nat) (s : List Char) : List Char :=
  List.replicate (width - s.length) ' ' ++ s

/-- Spaces behind the text, as many as it lacks of `width`. -/
def padEnd (width : Nat) (s : List Char) : List Char :=
  s ++ List.replicate (width - s.length) ' '

/-! ## Search and replacement -/

/-- The text holds `needle` somewhere. -/
def contains (needle : List Char) : List Char → Bool
  | [] => needle.isEmpty
  | c :: rest => needle.isPrefixOf (c :: rest) || contains needle rest

/-- Replaces every occurrence of `needle` behind the first `skip` characters, which are dropped: they
are what is left of the occurrence before. -/
def replaceFrom (needle new : List Char) : Nat → List Char → List Char
  | _, [] => []
  | skip + 1, _ :: rest => replaceFrom needle new skip rest
  | 0, c :: rest =>
    if needle.isPrefixOf (c :: rest) then new ++ replaceFrom needle new (needle.length - 1) rest
    else c :: replaceFrom needle new 0 rest

/-- The text with `new` in the place of every occurrence of `needle`, which is not empty. -/
def replace (needle new text : List Char) : List Char := replaceFrom needle new 0 text

end ByteMachine.Text
