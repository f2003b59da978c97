/-
# The word table

Every lowercase identifier is looked up here.  A hit gives the class of the
word; a miss means that the identifier is an ordinary variable.

Words are kept by length, and the candidates of one length are compared byte by
byte.  Matching is exact: `Let` and `lett` are not `let`.
-/
import OCamlHighlight.Byte
import OCamlHighlight.Token

namespace OCamlHighlight.Word

/-- The words of a given length, by class. -/
def ofLength : Nat → List (Tag × List String)
  | 2 => [(.keyword, ["as", "do", "if", "in", "of", "to"]), (.operator, ["or"])]
  | 3 => [(.keyword, ["end", "for", "fun", "let", "new", "rec", "sig", "try", "val"]),
      (.operator, ["lor", "lsl", "lsr", "asr", "and"])]
  | 4 => [(.keyword, ["done", "else", "lazy", "open", "then", "type", "when", "with"]),
      (.operator, ["lxor", "land"]), (.builtin, ["exit", "succ", "pred"]), (.atom, ["true"])]
  | 5 => [(.keyword, ["begin", "class", "match", "while"]), (.builtin, ["raise"]),
      (.atom, ["false"])]
  | 6 => [(.keyword, ["assert", "downto", "method", "module", "nonrec", "object", "struct"]),
      (.builtin, ["ignore"])]
  | 7 => [(.keyword, ["functor", "include", "inherit", "mutable", "private", "virtual"])]
  | 8 => [(.keyword, ["external", "function"]), (.builtin, ["failwith"])]
  | 9 => [(.keyword, ["exception"])]
  | 10 => [(.keyword, ["constraint"])]
  | 11 => [(.keyword, ["initializer"]), (.builtin, ["invalid_arg"])]
  | _ => []

/-- Whether a word can be in the table at all: it has two to eleven bytes and
begins with a lowercase letter. -/
def isCandidate (word : List Byte) : Bool :=
  2 ≤ word.length && word.length ≤ 11 && word.head?.any Byte.isLower

/-- The class of a word, if it is in the table. -/
def lookup (word : List Byte) : Option Tag :=
  if isCandidate word then
    (ofLength word.length).findSome? fun (tag, words) =>
      if words.any (bytes · == word) then some tag else none
  else
    none

/-- The tag of a lowercase identifier. -/
def tag (word : List Byte) : Tag := (lookup word).getD .identifier

end OCamlHighlight.Word
