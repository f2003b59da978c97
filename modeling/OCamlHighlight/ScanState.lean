/-
# What a line hands to the next one

Strings, quoted strings and comments run over line ends.  `ScanState` is all
that has to be remembered from one line to the next: which of them is open, how
deep comments are nested, and whether a toplevel directive may come next.
-/

namespace OCamlHighlight

/-- What the next byte that is not blank belongs to. -/
inductive Mode where
  /-- Ordinary code. -/
  | base
  /-- A string between double quotes. -/
  | string
  /-- A quoted string, which has no escapes. -/
  | rawString
  /-- One or more nested comments. -/
  | comment
  deriving DecidableEq, Repr, Inhabited

namespace Mode

/-- The name of a mode in token dumps. -/
def name : Mode → String
  | base => "base"
  | string => "string"
  | rawString => "raw-string"
  | comment => "comment"

/-- All modes. -/
def all : List Mode := [base, string, rawString, comment]

/-- The mode with a given name. -/
def ofName? (name : String) : Option Mode := all.find? (·.name == name)

/-- Reading a mode's name gives the mode back. -/
theorem ofName?_name (mode : Mode) : ofName? mode.name = some mode := by
  cases mode <;> decide

/-- The number of steps that a mode may cost at a byte without taking it: one
in a comment, which may turn out to be closed already. -/
def slack : Mode → Nat
  | comment => 1
  | _ => 0

theorem slack_le_one (mode : Mode) : mode.slack ≤ 1 := by
  cases mode <;> decide

end Mode

/-- The number of comments open around a byte.  It stays at the largest word
once that is reached. -/
abbrev Depth := UInt32

namespace Depth

/-- The largest depth. -/
def limit : Depth := 4294967295

/-- One comment deeper, unless the depth is the largest one already. -/
def deeper (depth : Depth) : Depth := if depth = limit then limit else depth + 1

/-- Opening a comment adds one, up to the largest depth. -/
theorem toNat_deeper (depth : Depth) :
    depth.deeper.toNat = min (depth.toNat + 1) 4294967295 := by
  have bound := depth.toNat_lt
  have hlimit : limit.toNat = 4294967295 := rfl
  have hone : (1 : UInt32).toNat = 1 := rfl
  unfold deeper
  split
  case isTrue h =>
    subst h
    omega
  case isFalse h =>
    have hne : depth.toNat ≠ limit.toNat := fun e => h (UInt32.toNat_inj.mp e)
    rw [UInt32.toNat_add]
    omega

/-- After a comment has opened the depth is positive. -/
theorem deeper_ne_zero (depth : Depth) : depth.deeper ≠ 0 := by
  intro h
  have hmin := toNat_deeper depth
  have hzero : (0 : UInt32).toNat = 0 := rfl
  rw [h] at hmin
  omega

end Depth

/-- The state between two tokens, and in particular between two lines. -/
structure ScanState where
  mode : Mode
  /-- The number of open comments. -/
  depth : Depth
  /-- Whether a directive may start here: so at the start of a document and
  after `;;`, until another token of code follows. -/
  atLineStart : Bool
  deriving DecidableEq, Repr

namespace ScanState

/-- The state at the start of a document. -/
def start : ScanState := ⟨.base, 0, true⟩

instance : Inhabited ScanState := ⟨start⟩

/-- Whether a string, a quoted string or a comment is open. -/
def isOpen (state : ScanState) : Bool := state.mode != .base

/-- A token of code has passed, so that no directive may start. -/
def passCode (state : ScanState) : ScanState := { state with atLineStart := false }

/-- A literal of the given mode has opened. -/
def openLiteral (state : ScanState) (mode : Mode) : ScanState :=
  { state with mode, atLineStart := false }

/-- A comment has opened. -/
def openComment (state : ScanState) : ScanState :=
  { state with mode := .comment, depth := state.depth.deeper }

/-- The literal is closed, and code follows. -/
def toBase (state : ScanState) : ScanState := { state with mode := .base }

/-- The comments of a scan have changed the depth.  At depth zero code
follows. -/
def withDepth (state : ScanState) (depth : Depth) : ScanState :=
  { state with depth, mode := if depth = 0 then .base else state.mode }

end ScanState

end OCamlHighlight
