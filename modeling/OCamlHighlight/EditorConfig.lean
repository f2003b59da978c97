/-
# Editor options

An editor has two options that the mode cares about: the number of columns of
one indentation level, and whether line numbers are shown.  Each is set by name
from text, or filled in from the defaults of the mode when it is not set yet.
-/
import OCamlHighlight.Text.Decimal
import OCamlHighlight.Text.Trim

namespace OCamlHighlight

/-- The options that can be set. -/
inductive EditorOption where
  | indentUnit
  | lineNumbers
  deriving DecidableEq, Repr

namespace EditorOption

/-- The name of an option in reports. -/
def name : EditorOption → String
  | indentUnit => "indent_unit"
  | lineNumbers => "line_numbers"

/-- The other spelling of an option's name. -/
def camelName : EditorOption → String
  | indentUnit => "indentUnit"
  | lineNumbers => "lineNumbers"

/-- What a value of the option has to be. -/
def expected : EditorOption → String
  | indentUnit => "a non-negative integer"
  | lineNumbers => "true or false"

/-- The option with a given name, in either spelling. -/
def ofName? (name : String) : Option EditorOption :=
  [indentUnit, lineNumbers].find? fun option => option.name == name || option.camelName == name

end EditorOption

/-- The values that the mode brings along. -/
structure EditorDefaults where
  indentUnit : UInt32
  lineNumbers : Bool
  deriving DecidableEq, Repr

/-- The defaults for OCaml: two columns, with line numbers. -/
def EditorDefaults.ocaml : EditorDefaults := ⟨2, true⟩

/-- Why an option cannot be set. -/
inductive ConfigError where
  /-- There is no option of that name. -/
  | unknownOption (name : String)
  /-- The option does not take that value. -/
  | invalidValue (option : EditorOption) (value : String)
  deriving DecidableEq, Repr

/-- The message for an option that cannot be set. -/
def ConfigError.message : ConfigError → String
  | unknownOption name => "unknown editor option '" ++ name ++ "'"
  | invalidValue option value =>
    "invalid value '" ++ value ++ "' for option '" ++ option.name ++ "': expected "
      ++ option.expected

/-! ## Values as text -/

/-- Reads an unsigned word: a decimal number, perhaps behind a plus sign. -/
def readWord (text : String) : Option UInt32 :=
  let digits := match text.toList with
    | '+' :: rest => rest
    | all => all
  match Text.readDecimal digits with
  | some n => if n ≤ 4294967295 then some (UInt32.ofNat n) else none
  | none => none

/-- Reads a truth value, whatever the case of its letters. -/
def readSwitch (text : String) : Option Bool :=
  let word := Text.toLower text
  if ["true", "on", "yes", "1"].contains word then some true
  else if ["false", "off", "no", "0"].contains word then some false
  else none

/-- Writes an unsigned word in decimal digits. -/
def showWord (n : UInt32) : String := Text.decimal n.toNat

/-- Writes a truth value. -/
def showSwitch (on : Bool) : String := if on then "true" else "false"

/-! ## The options of an editor -/

/-- The options of one editor; a missing value is not set yet. -/
structure EditorConfig where
  indentUnit : Option UInt32
  lineNumbers : Option Bool
  deriving DecidableEq, Repr

namespace EditorConfig

/-- No option is set. -/
def unset : EditorConfig := ⟨none, none⟩

/-- Whether some option is not set. -/
def hasUnset (config : EditorConfig) : Bool :=
  config.indentUnit.isNone || config.lineNumbers.isNone

/-- Sets every option that is not set, and says whether there was one. -/
def applyDefaults (config : EditorConfig) (defaults : EditorDefaults) : EditorConfig × Bool :=
  (⟨some (config.indentUnit.getD defaults.indentUnit),
    some (config.lineNumbers.getD defaults.lineNumbers)⟩, config.hasUnset)

/-- Sets the option of the given name.  White space around the name and around
the value does not count. -/
def setOption (config : EditorConfig) (name value : String) : Except ConfigError EditorConfig :=
  let name := Text.trim name
  let value := Text.trim value
  match EditorOption.ofName? name with
  | none => .error (.unknownOption name)
  | some .indentUnit =>
    match readWord value with
    | some unit => .ok { config with indentUnit := some unit }
    | none => .error (.invalidValue .indentUnit value)
  | some .lineNumbers =>
    match readSwitch value with
    | some on => .ok { config with lineNumbers := some on }
    | none => .error (.invalidValue .lineNumbers value)

/-- The name and the value of an assignment, on both sides of its first equals
sign. -/
def splitAssignment (text : String) : Option (String × String) :=
  match text.toList.dropWhile (· != '=') with
  | [] => none
  | _ :: value =>
    some (String.ofList (text.toList.takeWhile (· != '=')), String.ofList value)

/-- Sets an option from an assignment.  A text without an equals sign is taken
for the name of an option that does not exist. -/
def setAssignment (config : EditorConfig) (text : String) : Except ConfigError EditorConfig :=
  match splitAssignment text with
  | some (name, value) => config.setOption name value
  | none => .error (.unknownOption text)

/-- The options as a list of assignments. -/
def display (config : EditorConfig) : String :=
  "indent_unit=" ++ (config.indentUnit.map showWord).getD "<unset>"
    ++ " line_numbers=" ++ (config.lineNumbers.map showSwitch).getD "<unset>"

end EditorConfig

end OCamlHighlight
