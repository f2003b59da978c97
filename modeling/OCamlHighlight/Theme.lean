/-
# Themes

A theme gives style labels the escape sequences of a terminal.  Text under a
label without a sequence is written as it is.
-/
import OCamlHighlight.Token

namespace OCamlHighlight

/-- When to use colors. -/
inductive ColorMode where
  /-- On a terminal only. -/
  | auto
  | always
  | never
  deriving DecidableEq, Repr

namespace ColorMode

/-- The name of a color mode on the command line. -/
def name : ColorMode → String
  | auto => "auto"
  | always => "always"
  | never => "never"

/-- The color mode with a given name. -/
def ofName? (name : String) : Option ColorMode := [auto, always, never].find? (·.name == name)

/-- Whether to use colors, given whether the output is a terminal. -/
def usesColors (mode : ColorMode) (terminal : Bool) : Bool :=
  match mode with
  | auto => terminal
  | always => true
  | never => false

end ColorMode

/-- The escape sequences for style labels. -/
structure Theme where
  styles : List (String × String)
  deriving DecidableEq, Repr

namespace Theme

/-- The sequence that selects graphic renditions by their parameters. -/
def rendition (parameters : String) : String := "\x1b[" ++ parameters ++ "m"

/-- The sequence that ends every style. -/
def reset : String := rendition "0"

/-- The theme for dark and light terminals alike. -/
def standard : Theme :=
  ⟨[("keyword", rendition "1;35"), ("operator", rendition "33"), ("builtin", rendition "36"),
    ("atom", rendition "1;34"), ("variable-2", rendition "34"), ("number", rendition "32"),
    ("string", rendition "31"), ("comment", rendition "2;3")]⟩

/-- The theme without styles. -/
def monochrome : Theme := ⟨[]⟩

/-- The theme of a run with or without colors. -/
def ofColors (colors : Bool) : Theme := if colors then standard else monochrome

/-- The sequence for a style label. -/
def styleOfLabel (theme : Theme) (label : String) : Option String := theme.styles.lookup label

/-- The sequence for a tag. -/
def style (theme : Theme) (tag : Tag) : Option String := tag.label.bind theme.styleOfLabel

/-- A text in the style of a tag. -/
def paint (theme : Theme) (tag : Tag) (text : String) : String :=
  match theme.style tag with
  | some sequence => sequence ++ text ++ reset
  | none => text

end Theme

end OCamlHighlight
