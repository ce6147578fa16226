import ByteMachine.Derive.Item
import ByteMachine.Numeral

/-!
# Derived messages

From an enum whose variants carry messages, the code that writes them: two implementations with one
header, the first with an arm for each variant in the order of declaration.

A message is a template: a text with placeholders, which are a name in braces, `{name}`, or a name with
a way to write it, `{name:spec}`. Placeholders are found by plain search for their first characters up
to the end of the name, so doubled braces do not hide one. Fields without names are mentioned by their
positions. Before such a template can be used, the positions it mentions are renamed to variables, one
position after the other (`Template.bindPositions`).

An arm binds the fields that the variant's message mentions, and no others, and hands them to the
formatter under the names they are bound to. A variant without fields writes its message as it
stands. The first variant whose message cannot be read decides the error.
-/

namespace ByteMachine.Derive

/-! ## Message templates -/

namespace Template

/-- The placeholder of a name. -/
def plain (name : List Char) : List Char := '{' :: name ++ ['}']

/-- How a placeholder with a specification begins. -/
def specified (name : List Char) : List Char := '{' :: name ++ [':']

/-- The template has a placeholder of this name. -/
def mentions (template name : List Char) : Bool :=
  Text.contains (plain name) template || Text.contains (specified name) template

/-- The template with another name in all placeholders of a name. -/
def rename (template old new : List Char) : List Char :=
  Text.replace (specified old) (specified new) (Text.replace (plain old) (plain new) template)

/-- The name of a position. -/
def position (i : Nat) : List Char := (decimal i).toList

/-- The variable a position is bound to. -/
def binding (i : Nat) : List Char := 'f' :: position i

/-- The positions below `count` that a template mentions, in order. -/
def positions (template : List Char) (count : Nat) : List Nat :=
  (List.range count).filter fun i => mentions template (position i)

/-- The template with every mentioned position below `count` renamed to its variable. -/
def bindPositions (template : List Char) (count : Nat) : List Char :=
  (positions template count).foldl (fun t i => rename t (position i) (binding i)) template

end Template

/-! ## Expansions -/

/-- Why nothing can be derived. -/
inductive DeriveError where
  | notEnum
  /-- The variant has no message attribute. -/
  | missingMessage (variant : String)
  /-- The message attribute has no list. -/
  | noList
  /-- The list of the message attribute is no single string literal. -/
  | noLiteral
  deriving DecidableEq, Repr

/-- The text of a derivation error. -/
def DeriveError.message : DeriveError → String
  | notEnum => "Error can only be derived for enums"
  | missingMessage variant =>
    "variant `" ++ variant ++ "` is missing an #[error(\"...\")] message"
  | noList => "expected #[error(\"message\")]"
  | noLiteral =>
    "#[error] takes a single string literal, e.g. #[error(\"unknown opcode \x7bopcode\x7d\")]"

/-- How an arm takes a variant apart and what it writes. The arguments of a formatted message are
pairs of a placeholder's name and the variable that it stands for. -/
inductive Arm.Body where
  /-- Writes a text as it is. -/
  | text (message : String)
  /-- Binds some of the fields by position; `none` is a field that is not bound. -/
  | tuple (bindings : List (Option String)) (format : String) (arguments : List (String × String))
  /-- Binds some of the fields by name and leaves the others out. -/
  | named (bindings : List String) (format : String) (arguments : List (String × String))
  deriving DecidableEq, Repr

/-- The arm of one variant. -/
structure Arm where
  variant : String
  body : Arm.Body
  deriving DecidableEq, Repr

/-- What an implementation says before its body. -/
structure Header where
  /-- The implemented trait. -/
  interface : String
  parameters : List String
  /-- The type it is implemented for. -/
  self : String
  bounds : List String
  deriving DecidableEq, Repr

/-- The derived code: two implementations, the first with an arm for each variant. -/
structure Expansion where
  display : Header
  arms : List Arm
  error : Header
  deriving DecidableEq, Repr

/-- The message of a variant: the text of its first attribute whose path is `error`. -/
def Variant.message (v : Variant) : Except DeriveError String :=
  match v.attributes.find? (·.path == "error") with
  | none => .error (.missingMessage v.name)
  | some a =>
    match a.content with
    | .literal text => .ok text
    | .tokens => .error .noLiteral
    | .bare | .nameValue => .error .noList

/-- The body of the arm for a variant with these fields and this message. -/
def Fields.body (message : String) : Fields → Arm.Body
  | .unit => .text message
  | .tuple count =>
    let template := message.toList
    let bound (i : Nat) : String := String.ofList (Template.binding i)
    .tuple
      ((List.range count).map fun i =>
        if Template.mentions template (Template.position i) then some (bound i) else none)
      (String.ofList (Template.bindPositions template count))
      ((Template.positions template count).map fun i => (bound i, bound i))
  | .named names =>
    let used := names.filter fun name => Template.mentions message.toList name.toList
    .named used message (used.map fun name => (name, name))

/-- The arm of a variant. -/
def Variant.arm (v : Variant) : Except DeriveError Arm := do
  return ⟨v.name, v.fields.body (← v.message)⟩

namespace Item

/-- The parameters in the order in which they are used: lifetimes come first. -/
def ordered (item : Item) : List Parameter :=
  item.parameters.filter (·.isLifetime) ++ item.parameters.filter (!·.isLifetime)

/-- The item's type, with the bare names of its parameters. -/
def self (item : Item) : String :=
  match item.ordered with
  | [] => item.name
  | parameters =>
    item.name ++ " < " ++ " , ".intercalate (parameters.map (·.name)) ++ " >"

/-- The header of an implementation of a trait for the item. It repeats the item's parameters and
bounds as they are written back, and no statement is about it. -/
def header (item : Item) (interface : String) : Header where
  interface := interface
  parameters := item.ordered.map (·.declaration)
  self := item.self
  bounds := item.bounds.map writeBound

/-- What is derived from an item. -/
def expand (item : Item) : Except DeriveError Expansion :=
  match item.kind with
  | .enumeration variants => do
    return {
      display := item.header ":: std :: fmt :: Display"
      arms := ← variants.mapM Variant.arm
      error := item.header ":: std :: error :: Error" }
  | .record | .union => .error .notEnum

end Item

end ByteMachine.Derive
