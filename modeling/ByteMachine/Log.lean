import ByteMachine.Numeral
import ByteMachine.Text

/-!
# The log

Records of four levels, written as lines such as `14:03:27.512 [INFO ] message`. `Settings` decide
which levels are written and whether the time of day and the level stand in front; `Settings.write`
is the text a record comes to, which is empty for a record below the least level.

The time of day and the choice of colour are the caller's: nothing here reads a clock or a
terminal.
-/

namespace ByteMachine.Log

/-- Levels, from the most to the least verbose. -/
inductive Level where
  | trace
  | info
  | warn
  | error
  deriving DecidableEq, Repr

namespace Level

/-- The rank of a level; a higher rank is more severe. -/
def severity : Level → Nat
  | trace => 0
  | info => 1
  | warn => 2
  | error => 3

/-- The name of a level. -/
def name : Level → String
  | trace => "TRACE"
  | info => "INFO"
  | warn => "WARN"
  | error => "ERROR"

/-- The name of a level cut to `precision` characters, if one is given, and then filled up with
spaces to `width`. -/
def display (level : Level) (width : Nat) (precision : Option Nat) : String :=
  let shown := match precision with
    | some most => level.name.toList.take most
    | none => level.name.toList
  String.ofList (Text.padEnd width shown)

/-- The escape sequences that set a level's colour. -/
def escapes : Level → String
  | trace => "\x1b[2m\x1b[36m"
  | info => ""
  | warn => "\x1b[1m\x1b[33m"
  | error => "\x1b[1m\x1b[31m"

end Level

/-- The escape sequence that ends every colour. -/
def plainEscape : String := "\x1b[0m"

/-- The time of day of a moment given in milliseconds since a midnight, as `HH:MM:SS.mmm`. -/
def timeOfDay (milliseconds : Nat) : String :=
  let seconds := milliseconds / 1000
  let field := Numeral.clock.write
  field (seconds / 3600 % 24) ++ ":" ++ field (seconds / 60 % 60) ++ ":" ++ field (seconds % 60)
    ++ "." ++ Numeral.Style.write { places := 3 } (milliseconds % 1000)

/-- Something to be logged. -/
structure Record where
  level : Level
  message : String
  deriving DecidableEq, Repr

/-- What is logged, and how. -/
structure Settings where
  /-- The least severe level that is written. -/
  minLevel : Level := .info
  /-- Lines begin with the time of day. -/
  timestamps : Bool := true
  /-- The level stands in front of the message. -/
  levelTags : Bool := true
  deriving DecidableEq, Repr

namespace Settings

/-- A record of this level would be written. -/
def enabled (s : Settings) (level : Level) : Bool := s.minLevel.severity ≤ level.severity

/-- The line of a record that is written at the time `stamp`. The message is taken as it is, line
feeds included. -/
def line (s : Settings) (stamp : String) (r : Record) : String :=
  (if s.timestamps then stamp ++ " " else "")
    ++ (if s.levelTags then "[" ++ r.level.display 5 none ++ "] " else "")
    ++ r.message ++ "\n"

/-- What logging a record at the time `stamp` writes: nothing, if its level is below the least one. In
colour, the line stands between the level's escape sequences and the one that ends them. -/
def write (s : Settings) (colour : Bool) (stamp : String) (r : Record) : String :=
  if r.level.severity < s.minLevel.severity then ""
  else if colour then plainEscape ++ r.level.escapes ++ s.line stamp r ++ plainEscape
  else s.line stamp r

end Settings

end ByteMachine.Log
