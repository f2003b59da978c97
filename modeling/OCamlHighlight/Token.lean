/-
# Tags and tokens

A token is a tag together with a length in bytes.  It carries no position: the
tokens of a line follow one another without gaps, so a position is the sum of
the lengths before it.
-/

namespace OCamlHighlight

/-- The category of a token. -/
inductive Tag where
  /-- A reserved word. -/
  | keyword
  /-- A run of operator symbols, or a word operator. -/
  | operator
  /-- A function of the standard library that is set apart. -/
  | builtin
  /-- A truth value or a toplevel directive. -/
  | atom
  /-- A lowercase identifier outside the word table. -/
  | identifier
  /-- A constructor, a module name or a polymorphic variant tag. -/
  | constructor
  /-- A numeric literal. -/
  | number
  /-- A string or quoted string, delimiters included. -/
  | string
  /-- A block comment, delimiters included. -/
  | comment
  /-- A run of blank bytes. -/
  | whitespace
  /-- The separator `;;`, or a character that no other rule takes. -/
  | plain
  /-- The end of the line. -/
  | eol
  deriving DecidableEq, Repr, Inhabited

namespace Tag

/-- The name of a tag in token dumps. -/
def name : Tag → String
  | keyword => "keyword"
  | operator => "operator"
  | builtin => "builtin"
  | atom => "atom"
  | identifier => "variable"
  | constructor => "constructor"
  | number => "number"
  | string => "string"
  | comment => "comment"
  | whitespace => "whitespace"
  | plain => "plain"
  | eol => "eol"

/-- The style label of a tag.  Whitespace, plain text and the end of the line
have none, and constructors go under `variable-2`, so that a theme can tell
them from variables. -/
def label : Tag → Option String
  | constructor => some "variable-2"
  | whitespace | plain | eol => none
  | tag => some tag.name

/-- Whether a tag has a style label. -/
def isStyled (tag : Tag) : Bool := tag.label.isSome

/-- The number of a tag: styled tags from 0, unstyled ones from 16, and 255
for the end of the line. -/
def code : Tag → Nat
  | keyword => 0
  | operator => 1
  | builtin => 2
  | atom => 3
  | identifier => 4
  | constructor => 5
  | number => 6
  | string => 7
  | comment => 8
  | whitespace => 16
  | plain => 17
  | eol => 255

/-- All tags, in the order of their numbers. -/
def all : List Tag :=
  [keyword, operator, builtin, atom, identifier, constructor, number, string, comment,
    whitespace, plain, eol]

/-- The tag with a given name. -/
def ofName? (name : String) : Option Tag := all.find? (·.name == name)

/-- Reading a tag's name gives the tag back. -/
theorem ofName?_name (tag : Tag) : ofName? tag.name = some tag := by
  cases tag <;> decide

end Tag

/-- A tag and a length in bytes. -/
structure Token where
  tag : Tag
  length : Nat
  deriving DecidableEq, Repr, Inhabited

/-- The token at the end of a line. -/
def Token.eol : Token := ⟨.eol, 0⟩

end OCamlHighlight
