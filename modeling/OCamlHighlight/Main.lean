/-
# The program

The files that the command names are read, the run is worked out, and what it
writes is written.
-/
import OCamlHighlight.Command

namespace OCamlHighlight

/-- The number and the wording of a failure of the operating system. -/
def systemError : IO.Error → Option (Nat × String)
  | .noFileOrDirectory _ number text => some (number.toNat, text)
  | .permissionDenied _ number text => some (number.toNat, text)
  | .inappropriateType _ number text => some (number.toNat, text)
  | .invalidArgument _ number text => some (number.toNat, text)
  | .resourceExhausted _ number text => some (number.toNat, text)
  | .noSuchThing _ number text => some (number.toNat, text)
  | .hardwareFault number text => some (number.toNat, text)
  | .otherError number text => some (number.toNat, text)
  | _ => none

/-- A failure of the operating system.  Its number may come negated, as a
word. -/
def failureOfNumber (number : Nat) (text : String) : ReadFailure :=
  let number := if 2147483648 ≤ number then 4294967296 - number else number
  match number with
  | 2 => .noSuchFile
  | 13 => .system .permissionDenied text 13
  | 20 => .notADirectory
  | 21 => .isADirectory
  | 36 => .nameTooLong
  | number => .system .other text number

/-- A failure to read a file. -/
def failureOf (error : IO.Error) : ReadFailure :=
  match systemError error with
  | some (number, text) => failureOfNumber number text
  | none => ⟨.other, toString error⟩

/-- Reads one source file. -/
def readSource (path : String) : IO (Except ReadFailure String) := do
  try
    return decodeSource (← IO.FS.readBinFile path)
  catch error =>
    return .error (failureOf error)

/-- Reads the files that the arguments name. -/
def readSources (arguments : List String) : IO Reader := do
  let paths := match Command.parse arguments with
    | .ok command => command.paths
    | .error _ => []
  let sources ← paths.mapM fun path => do return (path, ← readSource path)
  return fun path => (sources.lookup path).getD (.error .noSuchFile)

end OCamlHighlight

/-- Runs the program. -/
def main (arguments : List String) : IO UInt32 := do
  let stdout ← IO.getStdout
  let read ← OCamlHighlight.readSources arguments
  let output := OCamlHighlight.run read (← stdout.isTty) arguments
  stdout.putStr output.stdout
  (← IO.getStderr).putStr output.stderr
  return UInt32.ofNat output.code
