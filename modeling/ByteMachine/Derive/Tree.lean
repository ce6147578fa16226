import ByteMachine.Derive.Lexeme

/-!
# Token trees

Tokens in which brackets are matched, so that a rule about a list can look at its commas and not at
those inside a bracket. Reading settles what the text of a token alone does not say:

- `<` and `>` are brackets in a type. In a value, which is what curly brackets and the length of an
  array hold, they are unless an operand stands before them.
- Marks that touch are one token if together they are a mark of the place where they stand: `>>`
  ends two lists in a type and is an operator in a value.
- Among generic arguments the lifetimes come first (`lifetimesFirst`). What `for` introduces keeps its
  order, but for a colon with no bound behind it (`withoutEmptyBounds`).
- The parentheses of a function's parameters follow its name with no `::` between the two.

Like the lexemes, these are rules of the language in which items are declared, taken as given; no
statement is about them.
-/

namespace ByteMachine.Derive

/-- A token, or what a pair of brackets encloses. -/
inductive Tree where
  | token (token : Token)
  | group (bracket : Bracket) (inner : List Tree)

namespace Tree

mutual

/-- The tokens of a tree, with the brackets of its groups. -/
def tokens : Tree → List Token
  | .token t => [t]
  | .group bracket inner => .opening bracket :: listTokens inner ++ [.closing bracket]

/-- The tokens of trees that follow each other. -/
def listTokens : List Tree → List Token
  | [] => []
  | tree :: rest => tree.tokens ++ listTokens rest

end

/-- The tree is the mark `m` alone. -/
def isMark (m : String) : Tree → Bool
  | .token t => t.isMark m
  | .group .. => false

/-- The tree is the word `w` alone. -/
def isWord (w : String) : Tree → Bool
  | .token (.word text) => text == w
  | _ => false

/-! ## Generic parameters -/

/-- Parameters without the colons that have no bound behind them. -/
def withoutEmptyBounds : List Tree → List Tree
  | [] => []
  | tree :: rest =>
    if tree.isMark ":" && rest.head?.all (fun after => after.isMark "," || after.isMark "=") then
      withoutEmptyBounds rest
    else tree :: withoutEmptyBounds rest

/-! ## Generic arguments -/

/-- The arguments of a list, each with the comma behind it. -/
def arguments : List Tree → List (List Tree)
  | [] => []
  | tree :: rest =>
    if tree.isMark "," then [tree] :: arguments rest
    else match arguments rest with
      | [] => [[tree]]
      | argument :: others => (tree :: argument) :: others

/-- The argument is a lifetime. A lifetime that is the first bound of a type is no argument. -/
def isLifetimeArgument : List Tree → Bool
  | [.token t] => t.isLifetime
  | [.token t, comma] => t.isLifetime && comma.isMark ","
  | _ => false

/-- The argument with a comma behind it. -/
def withComma (argument : List Tree) : List Tree :=
  if argument.getLast?.any (isMark ",") then argument
  else argument ++ [.token (.mark "," false)]

/-- Generic arguments with the lifetimes before all others. An argument keeps its comma, and the last
of the list gets one if it moves to the front. -/
def lifetimesFirst (trees : List Tree) : List Tree :=
  let (lifetimes, others) := (arguments trees).partition isLifetimeArgument
  if others.isEmpty then trees else (lifetimes.map withComma).flatten ++ others.flatten

/-! ## Reading -/

/-- What the tokens at a place are. -/
inductive Context where
  | type
  | value
  /-- The contents of an attribute or a macro, where no mark has a meaning of its own. -/
  | verbatim
  deriving DecidableEq, Repr

/-- The text is a mark of more than one character, or the start of one. -/
def Context.isMark (text : String) : Context → Bool
  | .type => ["::", "->", "..", "..."].contains text
  | .value =>
    ["::", "->", "=>", "..", "...", "..=", "==", "!=", "<=", ">=", "&&", "||", "<<", ">>", "<<=",
      ">>=", "+=", "-=", "*=", "/=", "%=", "^=", "&=", "|="].contains text
  | .verbatim => true

/-- What has been read behind an opening bracket. -/
structure Layer where
  bracket : Bracket
  context : Context
  /-- The bracket holds the parameters that `for` introduces. -/
  binds : Bool := false
  trees : List Tree := []

namespace Layer

/-- Adds a tree at the end. -/
def add (layer : Layer) (tree : Tree) : Layer := { layer with trees := layer.trees ++ [tree] }

/-- In a value, an operand comes next. -/
def expectsOperand (layer : Layer) : Bool :=
  match layer.trees.getLast? with
  | none => true
  | some tree => tree matches .token (.mark ..) && !tree.isMark "?"

/-- Two marks are not one operator although they look like it: at the start of an operand, `&&` takes
two references and `||` encloses no parameters. -/
def beginsOperand (layer : Layer) (text : String) : Bool :=
  layer.context = .value && (text == "&&" || text == "||") &&
    { layer with trees := layer.trees.dropLast }.expectsOperand

/-- The mark that the last token and a mark behind it make up together. -/
def joined? (layer : Layer) (m : String) : Option String :=
  match layer.trees.getLast? with
  | some (.token (.mark text true)) =>
    if layer.context.isMark (text ++ m) && !layer.beginsOperand (text ++ m) then some (text ++ m)
    else none
  | _ => none

/-- The context behind an opening bracket. -/
def inside (layer : Layer) (bracket : Bracket) : Context :=
  match layer.trees.reverse, layer.context, bracket with
  | .token (.mark "#" _) :: _, _, _ => .verbatim
  | .token (.mark "!" _) :: .token (.word _) :: _, _, _ => .verbatim
  | _, .verbatim, _ => .verbatim
  | _, _, .angle => .type
  | _, _, .curly => .value
  | _, context, _ => context

/-- Without the `::` at the end, which is not written before parentheses in a type. -/
def beforeGroup (layer : Layer) (bracket : Bracket) : Layer :=
  if layer.context = .type && bracket = .round && layer.trees.getLast?.any (Tree.isMark "::") then
    { layer with trees := layer.trees.dropLast }
  else layer

/-- What has been read, as one tree. -/
def toTree (layer : Layer) : Tree :=
  .group layer.bracket <|
    if layer.bracket != .angle then layer.trees
    else if layer.binds then withoutEmptyBounds layer.trees
    else lifetimesFirst layer.trees

/-- Takes over what has been read behind a bracket that nothing closes. -/
def takeOver (layer inner : Layer) : Layer :=
  { layer with trees := layer.trees ++ .token (.opening inner.bracket) :: inner.trees }

end Layer

/-- A reading of tokens: the innermost open bracket and those around it. The outermost layer stands
for no bracket. -/
structure Reading where
  layer : Layer
  outer : List Layer

namespace Reading

/-- Adds a tree behind the innermost open bracket. -/
def add (r : Reading) (tree : Tree) : Reading := { r with layer := r.layer.add tree }

/-- Opens a bracket. -/
def enter (r : Reading) (bracket : Bracket) : Reading :=
  let inner : Layer := {
    bracket
    context := r.layer.inside bracket
    binds := r.layer.trees.getLast?.any (isWord "for") }
  ⟨inner, r.layer.beforeGroup bracket :: r.outer⟩

/-- Closes the innermost open bracket of a kind. Angle brackets inside it were none. -/
def leave (bracket : Bracket) : Layer → List Layer → Reading
  | layer, [] => ⟨layer.add (.token (.closing bracket)), []⟩
  | layer, parent :: outer =>
    if layer.bracket = bracket then ⟨parent.add layer.toTree, outer⟩
    else leave bracket (parent.takeOver layer) outer

/-- Reads a mark that is not part of the mark before it. -/
def mark (r : Reading) (m : String) (touching : Bool) : Reading :=
  let added := r.add (.token (.mark m touching))
  match r.layer.context, m with
  | .type, "<" => r.enter .angle
  | .type, ">" => if r.layer.bracket = .angle then leave .angle r.layer r.outer else added
  | .type, ";" => { added with layer.context := .value }
  | .value, "<" => if r.layer.expectsOperand then r.enter .angle else added
  | _, _ => added

/-- Reads one token. -/
def token (r : Reading) : Token → Reading
  | .mark m touching =>
    match r.layer.joined? m with
    | some text =>
      { r with layer.trees := r.layer.trees.dropLast ++ [.token (.mark text touching)] }
    | none => r.mark m touching
  | .opening bracket => r.enter bracket
  | .closing bracket => leave bracket r.layer r.outer
  | t => r.add (.token t)

/-- All trees, when no more tokens follow. -/
def finish : Layer → List Layer → List Tree
  | layer, [] => layer.trees
  | layer, parent :: outer => finish (parent.takeOver layer) outer

end Reading

/-- The trees of a type or of a declaration that ends in types. -/
def ofTokens (tokens : List Token) : List Tree :=
  let r := tokens.foldl Reading.token ⟨{ bracket := .curly, context := .type }, []⟩
  Reading.finish r.layer r.outer

/-- The trees of a text. -/
def ofString (text : String) : List Tree := ofTokens (Token.ofString text)

end Tree

end ByteMachine.Derive
