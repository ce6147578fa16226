import ByteMachine.Text

/-!
# Tokens and lexemes

The generic parameters and the bounds of an item are taken as sequences of tokens. `Token.spaced` is
the one way in which tokens are written back, with a single space between two of them.

The text of a parameter or a bound is a sequence of lexemes: tokens, blanks and comments. A lexeme
is recognised at its first character, and the functions below count how many characters it takes,
so a text is read from left to right with no character left out (`scan`).

Literals come first: `'a'` is a character and `'a` a lifetime, `r#"a"#` is a string and `r#a` a
word, `1.5` and `1e-3` are one number each. Punctuation comes one character at a time; which marks
belong together depends on where they stand and is not decided here.

These are the rules of the language in which items are declared. They are taken as given, and no
statement is about them: what is proved of derived messages speaks of names, messages and fields, and
tokens are only what stands in front of an implementation.
-/

namespace ByteMachine.Derive

/-! ## Tokens -/

/-- What encloses a sequence of tokens. -/
inductive Bracket where
  | round
  | square
  | curly
  /-- The brackets of generic arguments. -/
  | angle
  deriving DecidableEq, Repr

/-- A token. -/
inductive Token where
  /-- An identifier or a keyword. A raw identifier has its `r#`. -/
  | word (text : String)
  /-- A name behind an apostrophe, which belongs to the text. -/
  | lifetime (text : String)
  /-- A number, a character or a string, written as it was read. -/
  | literal (text : String)
  /-- Punctuation. It is touching if the very next character is punctuation too. -/
  | mark (text : String) (touching : Bool)
  | opening (bracket : Bracket)
  | closing (bracket : Bracket)
  deriving DecidableEq, Repr

namespace Token

/-- The text of a token. -/
def text : Token → String
  | .word text | .lifetime text | .literal text | .mark text _ => text
  | .opening .round => "("
  | .opening .square => "["
  | .opening .curly => "\x7b"
  | .opening .angle => "<"
  | .closing .round => ")"
  | .closing .square => "]"
  | .closing .curly => "\x7d"
  | .closing .angle => ">"

/-- Tokens with one space between two of them. -/
def spaced (tokens : List Token) : String := " ".intercalate (tokens.map text)

/-- The token is a lifetime. -/
def isLifetime : Token → Bool
  | .lifetime _ => true
  | _ => false

/-- The token is the mark `m`. -/
def isMark (m : String) : Token → Bool
  | .mark text _ => text == m
  | _ => false

end Token

/-! ## Lexemes -/

/-- A lexeme: the tokens it stands for, which are none for a blank or a comment, and the number of
characters that it takes behind its first. -/
structure Lexeme where
  tokens : List Token
  extent : Nat
  deriving DecidableEq, Repr

namespace Lexeme

/-! ## Characters -/

/-- The character separates tokens: a blank, or one of the two marks of writing direction. -/
def isGap (c : Char) : Bool := Text.isBlank c || c == '\u200e' || c == '\u200f'

/-- The character can stand in a word. Outside ASCII, every character that is no gap can. -/
def isWordChar (c : Char) : Bool := c.isAlphanum || c == '_' || (0x80 ≤ c.toNat && !isGap c)

/-- The character can begin a word. -/
def startsWord (c : Char) : Bool := isWordChar c && !c.isDigit

/-- The character can stand among the digits of a number. -/
def isDigitChar (c : Char) : Bool := c.isDigit || c == '_'

/-- The characters of punctuation. The apostrophe is not among them. -/
def marks : List Char :=
  ['~', '!', '@', '#', '$', '%', '^', '&', '*', '-', '=', '+', '|', ';', ':', ',', '<', '.', '>',
    '/', '?']

/-- A comment begins here. -/
def startsComment : List Char → Bool
  | '/' :: '/' :: _ | '/' :: '*' :: _ => true
  | _ => false

/-- Punctuation begins here. -/
def startsMark : List Char → Bool
  | [] => false
  | c :: rest => marks.contains c && !startsComment (c :: rest)

/-! ## Extents -/

/-- The length of the word at the start of a text, or 0. -/
def wordLength : List Char → Nat
  | [] => 0
  | c :: rest => if startsWord c then (rest.takeWhile isWordChar).length + 1 else 0

/-- The length up to and with the first `quote` that no backslash escapes. -/
def quotedLength (quote : Char) : List Char → Nat
  | [] => 0
  | '\\' :: _ :: rest => quotedLength quote rest + 2
  | c :: rest => if c = quote then 1 else quotedLength quote rest + 1

/-- The length up to the end of the first occurrence of `stop`. -/
def lengthThrough (stop : List Char) : List Char → Nat
  | [] => 0
  | c :: rest =>
    if stop.isPrefixOf (c :: rest) then stop.length else lengthThrough stop rest + 1

/-- The length of a raw string behind its letters: number signs, a quote, any text, and a quote with
as many number signs. -/
def rawStringLength? (s : List Char) : Option Nat :=
  let signs := s.takeWhile (· == '#')
  match s.drop signs.length with
  | '"' :: rest => some (signs.length + 1 + lengthThrough ('"' :: signs) rest)
  | _ => none

/-- The length of a character literal behind its first apostrophe: one character, or an escape, and
an apostrophe. -/
def characterLength? : List Char → Option Nat
  | '\\' :: _ :: rest => some (2 + quotedLength '\'' rest)
  | _ :: '\'' :: _ => some 2
  | _ => none

/-- The length of a fraction with its point. A point before another point or before a word is no
part of a number. -/
def fractionLength : List Char → Nat
  | '.' :: rest =>
    if rest.head?.any (fun c => c == '.' || startsWord c) then 0
    else (rest.takeWhile isDigitChar).length + 1
  | _ => 0

/-- The length of an exponent with its letter. Without a digit there is no exponent. -/
def exponentLength : List Char → Nat
  | [] => 0
  | c :: rest =>
    let sign := match rest with
      | '+' :: _ | '-' :: _ => 1
      | _ => 0
    let digits := (rest.drop sign).takeWhile isDigitChar
    if (c == 'e' || c == 'E') && digits.any Char.isDigit then 1 + sign + digits.length else 0

/-- The length of a number without its suffix. The letter of a radix and the digits behind it are
read as a suffix, which they are not, but they end at the same place. -/
def numberLength? (s : List Char) : Option Nat :=
  if s.head?.any Char.isDigit then
    let whole := (s.takeWhile isDigitChar).length
    let point := whole + fractionLength (s.drop whole)
    some (point + exponentLength (s.drop point))
  else none

/-- The length of a literal without its suffix. -/
def bareLiteralLength? : List Char → Option Nat
  | '"' :: s => some (1 + quotedLength '"' s)
  | '\'' :: s => (characterLength? s).map (1 + ·)
  | 'b' :: '"' :: s | 'c' :: '"' :: s => some (2 + quotedLength '"' s)
  | 'b' :: '\'' :: s => (characterLength? s).map (2 + ·)
  | 'b' :: 'r' :: s | 'c' :: 'r' :: s => (rawStringLength? s).map (2 + ·)
  | 'r' :: s => (rawStringLength? s).map (1 + ·)
  | s => numberLength? s

/-- The length of the literal at the start of a text. A word that touches its end is its suffix. -/
def literalLength? (s : List Char) : Option Nat :=
  (bareLiteralLength? s).map fun n => n + wordLength (s.drop n)

/-- The length of a name, which may be raw. -/
def nameLength : List Char → Nat
  | 'r' :: '#' :: s => if wordLength s = 0 then 1 else 2 + wordLength s
  | s => wordLength s

/-! ## Comments -/

/-- The length up to the end of a comment inside which `depth` further comments are open. -/
def commentLength : Nat → List Char → Nat
  | _, [] => 0
  | depth, '/' :: '*' :: s => commentLength (depth + 1) s + 2
  | 0, '*' :: '/' :: _ => 2
  | depth + 1, '*' :: '/' :: s => commentLength depth s + 2
  | depth, _ :: s => commentLength depth s + 1

/-- A character as it is written in a string literal. -/
def escaped : Char → List Char
  | '"' => ['\\', '"']
  | '\\' => ['\\', '\\']
  | '\n' => ['\\', 'n']
  | '\r' => ['\\', 'r']
  | '\t' => ['\\', 't']
  | c => [c]

/-- The attribute that a documentation comment stands for. -/
def documentation (contents : List Char) : List Token :=
  [.mark "#" false, .opening .square, .word "doc", .mark "=" false,
    .literal (String.ofList ('"' :: contents.flatMap escaped ++ ['"'])), .closing .square]

/-! ## Lexemes -/

/-- The comment behind two slashes. It is documentation behind three, but not behind four. -/
def lineComment (s : List Char) : Lexeme :=
  let line := s.takeWhile (· != '\n')
  let tokens := match line with
    | '/' :: '/' :: _ => []
    | '/' :: contents => documentation (contents.takeWhile (· != '\r'))
    | _ => []
  ⟨tokens, line.length + 1⟩

/-- The comment behind a slash and an asterisk. It is documentation if there is one further asterisk
that neither ends it nor is followed by another. -/
def blockComment (s : List Char) : Lexeme :=
  let length := commentLength 0 s
  let tokens := match s with
    | '*' :: '*' :: _ | '*' :: '/' :: _ => []
    | '*' :: contents => documentation (contents.take (length - 3))
    | _ => []
  ⟨tokens, length + 1⟩

/-- The bracket that a character opens or closes. -/
def bracket? : Char → Option Token
  | '(' => some (.opening .round)
  | '[' => some (.opening .square)
  | '\x7b' => some (.opening .curly)
  | ')' => some (.closing .round)
  | ']' => some (.closing .square)
  | '\x7d' => some (.closing .curly)
  | _ => none

/-- The lexeme that takes the first `length` characters of a text and is one token. -/
def taking (token : String → Token) (c : Char) (rest : List Char) (length : Nat) : Lexeme :=
  ⟨[token (String.ofList ((c :: rest).take length))], length - 1⟩

/-- The lexeme that begins at a character. -/
def first (c : Char) (rest : List Char) : Lexeme :=
  if isGap c then ⟨[], 0⟩
  else match c, rest with
    | '/', '/' :: s => lineComment s
    | '/', '*' :: s => blockComment s
    | c, rest =>
      match literalLength? (c :: rest) with
      | some length => taking .literal c rest length
      | none =>
        match bracket? c with
        | some token => ⟨[token], 0⟩
        | none =>
          if c = '\'' then taking .lifetime c rest (1 + nameLength rest)
          else if startsWord c then taking .word c rest (nameLength (c :: rest))
          else ⟨[.mark (String.singleton c) (startsMark rest)], 0⟩

/-- The tokens of a text behind its first `taken` characters, which belong to the lexeme before. -/
def scan : Nat → List Char → List Token
  | _, [] => []
  | taken + 1, _ :: rest => scan taken rest
  | 0, c :: rest => (first c rest).tokens ++ scan (first c rest).extent rest

end Lexeme

/-- The tokens of a text. -/
def Token.ofString (text : String) : List Token := Lexeme.scan 0 text.toList

end ByteMachine.Derive
