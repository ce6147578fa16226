import ByteMachine.Derive.Tree

/-!
# Items

The declarations from which messages are derived: an enum, whose variants carry attributes and
fields, with its generic parameters and its bounds. Items of the other two kinds are told apart only
to be refused.

Parameters and bounds are only written back, by rules that are not this library's (`Tree`). No
statement is about them; those about items speak of their variants.
-/

namespace ByteMachine.Derive

/-- What stands behind an attribute's path. -/
inductive Attribute.Content where
  /-- A list that holds one string literal and nothing else. -/
  | literal (text : String)
  /-- A list that holds anything else. -/
  | tokens
  /-- Nothing. -/
  | bare
  /-- An equals sign and a value. -/
  | nameValue
  deriving DecidableEq, Repr

/-- An attribute. -/
structure Attribute where
  path : String
  content : Attribute.Content
  deriving DecidableEq, Repr

/-- The fields of a variant. -/
inductive Fields where
  | unit
  /-- Fields known by their positions. -/
  | tuple (count : Nat)
  /-- Fields known by their names, in the order of declaration. -/
  | named (names : List String)
  deriving DecidableEq, Repr

/-- A variant of an enum. -/
structure Variant where
  name : String
  attributes : List Attribute
  fields : Fields
  deriving DecidableEq, Repr

/-- The kind of an item. -/
inductive Kind where
  | enumeration (variants : List Variant)
  | record
  | union
  deriving DecidableEq, Repr

/-- A generic parameter, by the tokens with which it is written back. -/
structure Parameter where
  attributes : List Token
  /-- The name, with the word `const` before that of a constant and with the bounds behind it. -/
  declared : List Token
  deriving DecidableEq, Repr

namespace Parameter

/-- The attributes at the start of a list of trees, and the trees behind them. -/
def splitAttributes : List Tree → List Tree × List Tree
  | .token (.mark "#" touching) :: .group .square inner :: rest =>
    let (attributes, declared) := splitAttributes rest
    (.token (.mark "#" touching) :: .group .square inner :: attributes, declared)
  | trees => ([], trees)

/-- The parameter that a declaration declares. Its default is left out, and so is a colon with no
bound behind it. -/
def ofString (declaration : String) : Parameter :=
  let (attributes, declared) := splitAttributes (Tree.ofString declaration)
  let bounded := declared.takeWhile fun tree => !tree.isMark "="
  ⟨Tree.listTokens attributes, Tree.listTokens (Tree.withoutEmptyBounds bounded)⟩

/-- The parameter is a lifetime. -/
def isLifetime (p : Parameter) : Bool := p.declared.head?.any Token.isLifetime

/-- The name by which the parameter is used. -/
def name (p : Parameter) : String :=
  match p.declared with
  | .word "const" :: name :: _ => name.text
  | name :: _ => name.text
  | [] => ""

/-- The declaration as it is written back. -/
def declaration (p : Parameter) : String := Token.spaced (p.attributes ++ p.declared)

end Parameter

/-- A bound as it is written back. -/
def writeBound (bound : String) : String := Token.spaced (Tree.listTokens (Tree.ofString bound))

/-- An item. -/
structure Item where
  kind : Kind
  name : String
  parameters : List Parameter := []
  /-- The predicates of the item's `where` clause. -/
  bounds : List String := []
  deriving DecidableEq, Repr

end ByteMachine.Derive
