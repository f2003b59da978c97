/-
# The mode report

The report describes the language mode and the options that an editor ends up
with.  The mode attaches to an editor unless the editor belongs to a notebook
kernel for another language, and only then does it bring its defaults along.
-/
import OCamlHighlight.EditorConfig
import OCamlHighlight.Language

namespace OCamlHighlight

/-- What is known of an editor before the mode attaches. -/
structure ModeOptions where
  /-- The options that were set. -/
  config : EditorConfig
  /-- The language of the notebook kernel, if there is a kernel. -/
  kernel : Option String
  deriving DecidableEq, Repr

namespace ModeOptions

/-- An editor without options and without a kernel. -/
def unset : ModeOptions := ⟨.unset, none⟩

/-- Whether the mode attaches. -/
def attaches (options : ModeOptions) : Bool :=
  options.kernel.all LanguageMode.ocaml.matchesLanguage

/-- The options of the editor in the end. -/
def effective (options : ModeOptions) : EditorConfig :=
  if options.attaches then (options.config.applyDefaults .ocaml).1 else options.config

/-- The lines of the report. -/
def reportLines (options : ModeOptions) : List String :=
  let mode := LanguageMode.ocaml
  let comment := (mode.blockComment.map fun (opening, closing) => opening ++ " " ++ closing).getD
    "none"
  let verdict := if options.attaches then "attached" else "not attached"
  ["mode:          " ++ mode.name, "mime:          " ++ mode.mime, "block comment: " ++ comment,
    "line comment:  " ++ mode.lineComment.getD "none"]
  ++ options.kernel.toList.map (fun kernel => "kernel:        " ++ kernel ++ " (" ++ verdict ++ ")")
  ++ ["indent_unit:   " ++ (options.effective.indentUnit.map showWord).getD "unset",
    "line_numbers:  " ++ (options.effective.lineNumbers.map showSwitch).getD "unset"]

/-- The report. -/
def report (options : ModeOptions) : String :=
  String.join (options.reportLines.map (· ++ "\n"))

end ModeOptions

end OCamlHighlight
