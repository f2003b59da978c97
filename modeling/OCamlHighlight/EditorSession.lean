/-
# Options changed in place

An editor keeps one record of its options, and a host changes it request by request.
The record is changed in place: what a request has written before it fails would stay
written.  `serve_setOption` and `serve_applyDefaults` say what the requests come to.

Each option has a type of values of its own, so that one definition writes any of them.
-/
import OCamlHighlight.EditorConfig

namespace OCamlHighlight

/-! ## Options and their values -/

/-- The values of an option. -/
abbrev EditorOption.Value : EditorOption → Type
  | indentUnit => UInt32
  | lineNumbers => Bool

/-- Reads a value of an option. -/
def EditorOption.read : (option : EditorOption) → String → Option option.Value
  | indentUnit => readWord
  | lineNumbers => readSwitch

/-- Writes a value of an option. -/
def EditorOption.show : (option : EditorOption) → option.Value → String
  | indentUnit => showWord
  | lineNumbers => showSwitch

/-- The default of an option. -/
def EditorDefaults.value (defaults : EditorDefaults) : (option : EditorOption) → option.Value
  | .indentUnit => defaults.indentUnit
  | .lineNumbers => defaults.lineNumbers

namespace EditorConfig

/-- The value of an option, if it is set. -/
def value (config : EditorConfig) : (option : EditorOption) → Option option.Value
  | .indentUnit => config.indentUnit
  | .lineNumbers => config.lineNumbers

/-- The options with a new value for one of them. -/
def withValue (config : EditorConfig) : (option : EditorOption) → option.Value → EditorConfig
  | .indentUnit, unit => { config with indentUnit := some unit }
  | .lineNumbers, on => { config with lineNumbers := some on }

@[simp] theorem value_withValue (config : EditorConfig) (option : EditorOption)
    (value : option.Value) : (config.withValue option value).value option = some value := by
  cases option <;> rfl

/-- A new value for one option leaves the others. -/
theorem value_withValue_of_ne (config : EditorConfig) {option other : EditorOption}
    (value : option.Value) (h : other ≠ option) :
    (config.withValue option value).value other = config.value other := by
  cases option <;> cases other <;> first | rfl | exact absurd rfl h

@[simp] theorem value_unset (option : EditorOption) : unset.value option = none := by
  cases option <;> rfl

/-- Defaults fill in what is not set. -/
theorem value_applyDefaults (config : EditorConfig) (defaults : EditorDefaults)
    (option : EditorOption) :
    (config.applyDefaults defaults).1.value option
      = some ((config.value option).getD (defaults.value option)) := by
  cases option <;> rfl

/-! ## Changing options in place -/

/-- Changes options in place, and may fail. -/
abbrev Change := EStateM ConfigError EditorConfig

/-- Sets the option of the given name. -/
def writeOption (name value : String) : Change Unit := do
  let value := Text.trim value
  match EditorOption.ofName? (Text.trim name) with
  | some option =>
    match option.read value with
    | some read => modify fun config => config.withValue option read
    | none => throw (.invalidValue option value)
  | none => throw (.unknownOption (Text.trim name))

/-- Sets an option from an assignment. -/
def writeAssignment (text : String) : Change Unit :=
  match splitAssignment text with
  | some (name, value) => writeOption name value
  | none => throw (.unknownOption text)

/-- Sets one option if it is not set, and says whether it was not. -/
def fillIn (defaults : EditorDefaults) (option : EditorOption) : Change Bool := do
  if ((← get).value option).isNone then
    modify fun config => config.withValue option (defaults.value option)
    return true
  else
    return false

/-- Sets one option after the other if it is not set, and says whether there was one. -/
def fillAll (defaults : EditorDefaults) : Change Bool := do
  let first ← fillIn defaults .indentUnit
  let second ← fillIn defaults .lineNumbers
  return first || second

/-! ## Requests -/

/-- What a host asks of the options of an editor. -/
inductive Request where
  /-- Set the option of a name. -/
  | setOption (name value : String)
  /-- Set an option from an assignment. -/
  | setAssignment (text : String)
  /-- Fill in what is not set. -/
  | applyDefaults (defaults : EditorDefaults)
  deriving DecidableEq, Repr

/-- What a request that does not fail answers. -/
inductive Answer where
  /-- An option is set. -/
  | done
  /-- Whether some option was not set. -/
  | filled (changed : Bool)
  deriving DecidableEq, Repr

/-- Carries out a request in place. -/
def perform : Request → Change Answer
  | .setOption name value => do
    writeOption name value
    return .done
  | .setAssignment text => do
    writeAssignment text
    return .done
  | .applyDefaults defaults => return .filled (← fillAll defaults)

/-- The answer to a request, and the options after it. -/
def serve (config : EditorConfig) (request : Request) :
    Except ConfigError Answer × EditorConfig :=
  match (perform request).run config with
  | .ok answer next => (.ok answer, next)
  | .error error next => (.error error, next)

/-- The options after requests, with failures ignored. -/
def serveAll (config : EditorConfig) (requests : List Request) : EditorConfig :=
  requests.foldl (fun config request => (config.serve request).2) config

@[simp] theorem serveAll_nil (config : EditorConfig) : config.serveAll [] = config := rfl

@[simp] theorem serveAll_cons (config : EditorConfig) (request : Request)
    (requests : List Request) :
    config.serveAll (request :: requests) = (config.serve request).2.serveAll requests := rfl

/-! ## What requests come to -/

/-- The answer and the options that a set comes to. -/
def ofSet (config : EditorConfig) :
    Except ConfigError EditorConfig → Except ConfigError Answer × EditorConfig
  | .ok next => (.ok .done, next)
  | .error error => (.error error, config)

/-- Setting an option by its name, with all options in one. -/
theorem setOption_eq (config : EditorConfig) (name value : String) :
    config.setOption name value =
      match EditorOption.ofName? (Text.trim name) with
      | some option =>
        match option.read (Text.trim value) with
        | some read => .ok (config.withValue option read)
        | none => .error (.invalidValue option (Text.trim value))
      | none => .error (.unknownOption (Text.trim name)) := by
  rw [setOption]
  cases EditorOption.ofName? (Text.trim name) with
  | none => rfl
  | some option =>
    cases option with
    | indentUnit =>
      dsimp only [EditorOption.read]
      cases readWord (Text.trim value) <;> rfl
    | lineNumbers =>
      dsimp only [EditorOption.read]
      cases readSwitch (Text.trim value) <;> rfl

/-- **A set in place** writes nothing before it fails. -/
theorem serve_setOption (config : EditorConfig) (name value : String) :
    config.serve (.setOption name value) = config.ofSet (config.setOption name value) := by
  rw [setOption_eq, serve, perform, writeOption]
  cases EditorOption.ofName? (Text.trim name) with
  | none => rfl
  | some option =>
    dsimp only
    cases option.read (Text.trim value) <;> rfl

theorem serve_setAssignment (config : EditorConfig) (text : String) :
    config.serve (.setAssignment text) = config.ofSet (config.setAssignment text) := by
  cases hsplit : splitAssignment text with
  | none =>
    rw [serve, perform, writeAssignment, setAssignment, hsplit]
    rfl
  | some parts =>
    obtain ⟨name, value⟩ := parts
    have hset := serve_setOption config name value
    rw [serve, perform] at hset
    rw [serve, perform, writeAssignment, setAssignment, hsplit]
    exact hset

/-- **Defaults in place** fill in one option after the other. -/
theorem serve_applyDefaults (config : EditorConfig) (defaults : EditorDefaults) :
    config.serve (.applyDefaults defaults) =
      (.ok (.filled (config.applyDefaults defaults).2), (config.applyDefaults defaults).1) := by
  obtain ⟨unit, on⟩ := config
  cases unit <;> cases on <;> rfl

end EditorConfig

end OCamlHighlight
