/-
# The language mode

What an editor is told when it registers the mode: its name, its MIME type and
its comment delimiters.
-/
import OCamlHighlight.Text.Trim

namespace OCamlHighlight

/-- The description of a language mode. -/
structure LanguageMode where
  name : String
  mime : String
  /-- What opens and what closes a block comment. -/
  blockComment : Option (String × String)
  /-- What begins a comment that ends with its line. -/
  lineComment : Option String
  deriving DecidableEq, Repr

namespace LanguageMode

/-- The mode for OCaml, which has no line comments. -/
def ocaml : LanguageMode := ⟨"ocaml", "text/x-ocaml", some ("(*", "*)"), none⟩

/-- Whether a notebook kernel that reports `language` uses the mode. -/
def matchesLanguage (mode : LanguageMode) (language : String) : Bool :=
  Text.eqIgnoringCase (Text.trim language) mode.name

/-- Puts a text into a block comment, if the mode has block comments. -/
def commentOut (mode : LanguageMode) (text : String) : Option String :=
  mode.blockComment.map fun (opening, closing) => opening ++ " " ++ text ++ " " ++ closing

/-- The mode for a MIME type.  Parameters behind a semicolon do not count. -/
def ofMime? (mime : String) : Option LanguageMode :=
  let essence := Text.trim (String.ofList (mime.toList.takeWhile (· != ';')))
  if Text.eqIgnoringCase essence ocaml.mime then some ocaml else none

end LanguageMode

end OCamlHighlight
