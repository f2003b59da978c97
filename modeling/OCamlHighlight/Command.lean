/-
# The command line

A run is a function of its arguments, of the files it reads and of
whether its output is a terminal.  `parse` reads the arguments from left to right
and stops at the first one that is wrong; `run` carries the command out and
returns all that the run writes.

Files are rendered one by one.  With more than one path each output has a header
in front, and files that cannot be read are reported without stopping the run.
-/
import OCamlHighlight.Report.ModeReport
import OCamlHighlight.Report.Painting
import OCamlHighlight.Report.TokenDump
import OCamlHighlight.SourceFile

namespace OCamlHighlight

/-! ## Commands and errors -/

/-- A command with its options. -/
inductive Command where
  /-- Dump the tokens of files. -/
  | tokens (whitespace : Bool) (paths : List String)
  /-- Print files with highlighting. -/
  | highlight (color : ColorMode) (paths : List String)
  /-- Describe the mode. -/
  | mode (options : ModeOptions)
  /-- Show how the program is used. -/
  | help
  /-- Show the version. -/
  | version
  deriving DecidableEq, Repr

/-- Why a run ends before it has done its work. -/
inductive CommandError where
  /-- There is no such command. -/
  | unknownCommand (name : String)
  /-- The command needs files. -/
  | missingFiles (command usage : String)
  /-- The command has no such flag. -/
  | unknownFlag (command flag : String)
  /-- The flag needs another argument. -/
  | missingValue (flag : String)
  /-- There is no such color mode. -/
  | invalidColorMode (value : String)
  /-- An editor option cannot be set. -/
  | config (error : ConfigError)
  deriving DecidableEq, Repr

namespace CommandError

/-- The message for an error. -/
def message : CommandError → String
  | unknownCommand name => "Unknown command: " ++ name
  | missingFiles command _ => "no input files given to '" ++ command ++ "'"
  | unknownFlag command flag => "unknown option '" ++ flag ++ "' for '" ++ command ++ "'"
  | missingValue flag => "option '" ++ flag ++ "' expects a value"
  | invalidColorMode value =>
    "invalid color mode '" ++ value ++ "' (expected auto, always or never)"
  | config error => error.message

end CommandError

/-! ## Reading the arguments -/

namespace Command

/-- What an argument goes on with after `front`, if it begins with it. -/
def argumentAfter (front argument : String) : Option String :=
  if front.toList.isPrefixOf argument.toList then
    some (String.ofList (argument.toList.drop front.length))
  else
    none

/-- Whether an argument looks like a flag. -/
def isFlag (argument : String) : Bool := argument.toList.head? == some '-'

/-- Reads the arguments of the command `tokens`, with those read before. -/
def parseTokens (whitespace : Bool) (paths : List String) :
    List String → Except CommandError Command
  | [] =>
    if paths = [] then
      .error (.missingFiles "tokens" "Usage: camlhl tokens <file.ml>... [--whitespace]")
    else .ok (.tokens whitespace paths)
  | argument :: rest =>
    if argument = "--whitespace" ∨ argument = "-w" then parseTokens true paths rest
    else if isFlag argument then .error (.unknownFlag "tokens" argument)
    else parseTokens whitespace (paths ++ [argument]) rest

/-- Reads the arguments of the command `highlight`, with those read before. -/
def parseHighlight (color : ColorMode) (paths : List String) :
    List String → Except CommandError Command
  | [] =>
    if paths = [] then
      .error (.missingFiles "highlight"
        "Usage: camlhl highlight <file.ml>... [--color=auto|always|never]")
    else .ok (.highlight color paths)
  | argument :: rest =>
    match argumentAfter "--color=" argument with
    | some value =>
      match ColorMode.ofName? value with
      | some color => parseHighlight color paths rest
      | none => .error (.invalidColorMode value)
    | none =>
      if isFlag argument then .error (.unknownFlag "highlight" argument)
      else parseHighlight color (paths ++ [argument]) rest

/-- Makes an assignment to an editor option. -/
def assign (options : ModeOptions) (assignment : String) : Except CommandError ModeOptions :=
  match options.config.setAssignment assignment with
  | .ok config => .ok { options with config }
  | .error error => .error (.config error)

/-- Reads the arguments of the command `mode`, with the options set before.  The
argument after `--set` is an assignment whatever it looks like. -/
def parseMode (options : ModeOptions) : List String → Except CommandError Command
  | [] => .ok (.mode options)
  | argument :: rest =>
    if argument = "--set" then
      match rest with
      | [] => .error (.missingValue "--set")
      | assignment :: rest =>
        match assign options assignment with
        | .ok options => parseMode options rest
        | .error error => .error error
    else
      match argumentAfter "--set=" argument with
      | some assignment =>
        match assign options assignment with
        | .ok options => parseMode options rest
        | .error error => .error error
      | none =>
        match argumentAfter "--kernel=" argument with
        | some kernel => parseMode { options with kernel := some kernel } rest
        | none => .error (.unknownFlag "mode" argument)

/-- Reads the arguments of a run. -/
def parse : List String → Except CommandError Command
  | [] => .ok .help
  | name :: arguments =>
    if name = "tokens" then parseTokens false [] arguments
    else if name = "highlight" then parseHighlight .auto [] arguments
    else if name = "mode" then parseMode .unset arguments
    else if name = "help" ∨ name = "--help" ∨ name = "-h" then .ok .help
    else if name = "version" ∨ name = "--version" ∨ name = "-V" then .ok .version
    else .error (.unknownCommand name)

/-- The files that a command reads. -/
def paths : Command → List String
  | tokens _ paths => paths
  | highlight _ paths => paths
  | _ => []

end Command

/-! ## Running -/

/-- What a run writes, and its exit status. -/
structure RunOutput where
  code : Nat
  stdout : String
  stderr : String
  deriving DecidableEq, Repr

/-- How the program is used. -/
def usage : String :=
  String.join <| List.map (· ++ "\n")
    ["camlhl: OCaml syntax highlighter",
      "",
      "Usage: camlhl <command> [options]",
      "",
      "Commands:",
      "  tokens <file.ml>...      Dump tokens with positions and tags",
      "  highlight <file.ml>...   Print files with ANSI highlighting",
      "  mode                     Show mode metadata and editor config",
      "  help                     Show this help message",
      "  version                  Show version information",
      "",
      "Tokens options:",
      "  --whitespace, -w         Include whitespace tokens",
      "",
      "Highlight options:",
      "  --color=<mode>           auto (default), always, never",
      "",
      "Mode options:",
      "  --set <name>=<value>     Set an editor option before defaults apply",
      "                           (indent_unit, line_numbers)",
      "  --kernel=<language>      Attach as for a notebook kernel language",
      "",
      "Examples:",
      "  camlhl tokens main.ml",
      "  camlhl highlight src/*.ml --color=always",
      "  camlhl mode --set indentUnit=4 --kernel=ocaml",
      "",
      "Set RUST_LOG=debug to enable logging."]

/-- The name and version of the program. -/
def versionLine : String := "camlhl 0.1.0\n"

/-- A line about an error. -/
def errorLine (message : String) : String := "error: " ++ message ++ "\n"

/-- A way to read source files by path. -/
abbrev Reader := String → Except ReadFailure String

namespace RunOutput

/-- A run that writes a text and succeeds. -/
def success (stdout : String) : RunOutput := ⟨0, stdout, ""⟩

/-- A run that ends with an error before it does anything. -/
def ofError (error : CommandError) : RunOutput :=
  match error with
  | .unknownCommand _ => ⟨1, usage, error.message ++ "\n\n"⟩
  | .missingFiles _ usage => ⟨1, "", usage ++ "\n" ++ errorLine error.message⟩
  | _ => ⟨1, "", errorLine error.message⟩

end RunOutput

/-- The output for one file: its rendering, or why it cannot be read. -/
def renderFile (read : Reader) (render : String → String) (path : String) :
    Except ReadError String :=
  match read path with
  | .ok text => .ok (render text)
  | .error failure => .error (ReadError.ofFailure failure)

/-- The header in front of the output for the file with the given index. -/
def header (index : Nat) (path : String) : String :=
  (if index = 0 then "" else "\n") ++ "==> " ++ path ++ " <==\n"

/-- What one file puts on the standard output. -/
def fileStdout (headers : Bool) (index : Nat) (path : String) : Except ReadError String → String
  | .ok text => (if headers then header index path else "") ++ text
  | .error _ => ""

/-- What one file puts on the standard error. -/
def fileStderr (path : String) : Except ReadError String → String
  | .ok _ => ""
  | .error error => errorLine (error.message path)

/-- Renders files in the order of their paths.  The run fails if some file cannot
be read. -/
def runFiles (read : Reader) (render : String → String) (paths : List String) : RunOutput :=
  let results := paths.map fun path => (path, renderFile read render path)
  let headers := decide (1 < paths.length)
  { code := if results.all fun (_, result) => result.isOk then 0 else 1
    stdout := String.join <| results.mapIdx fun index (path, result) =>
      fileStdout headers index path result
    stderr := String.join <| results.map fun (path, result) => fileStderr path result }

/-- Carries out a command.  Files are rendered by their whole lines, as through a buffer
into which each line fits. -/
def Command.execute (read : Reader) (terminal : Bool) : Command → RunOutput
  | tokens whitespace paths => runFiles read (TokenDump.render whitespace) paths
  | highlight color paths =>
    runFiles read (Painting.render (Theme.ofColors (color.usesColors terminal))) paths
  | mode options => .success options.report
  | help => .success usage
  | version => .success versionLine

/-- A run with the given arguments. -/
def run (read : Reader) (terminal : Bool) (arguments : List String) : RunOutput :=
  match Command.parse arguments with
  | .ok command => command.execute read terminal
  | .error error => .ofError error

end OCamlHighlight
