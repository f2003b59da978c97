/-
# Reading source files

Source files are UTF-8 text.  This file holds the ways in which reading one can
fail, and a working directory that is given as a value (`Folder`), out of which
files are read as a file system would.
-/
import OCamlHighlight.Text.Decimal

namespace OCamlHighlight

/-! ## Failures -/

/-- The kinds of failure that a file system reports. -/
inductive FailureKind where
  | notFound
  | permissionDenied
  | invalidData
  | invalidInput
  | timedOut
  | interrupted
  | unexpectedEof
  | other
  deriving DecidableEq, Repr

/-- A failure with the wording of the file system. -/
structure ReadFailure where
  kind : FailureKind
  detail : String
  deriving DecidableEq, Repr

namespace ReadFailure

/-- A failure of the operating system, in its wording and with its number. -/
def system (kind : FailureKind) (text : String) (number : Nat) : ReadFailure :=
  ⟨kind, text ++ " (os error " ++ Text.decimal number ++ ")"⟩

/-- There is no such file. -/
def noSuchFile : ReadFailure := system .notFound "No such file or directory" 2

/-- A path goes on behind a file. -/
def notADirectory : ReadFailure := system .other "Not a directory" 20

/-- A directory was read like a file. -/
def isADirectory : ReadFailure := system .other "Is a directory" 21

/-- A name is longer than names may be. -/
def nameTooLong : ReadFailure := system .other "File name too long" 36

end ReadFailure

/-- Why a source file cannot be read. -/
inductive ReadError where
  /-- There is no such file. -/
  | notFound
  /-- The file may not be read. -/
  | permissionDenied
  /-- The file is not UTF-8 text. -/
  | invalidUtf8
  /-- Reading failed for a reason in the words of the file system. -/
  | other (detail : String)
  deriving DecidableEq, Repr

namespace ReadError

/-- The cause of a failure. -/
def ofFailure (failure : ReadFailure) : ReadError :=
  match failure.kind with
  | .notFound => notFound
  | .permissionDenied => permissionDenied
  | .invalidData => invalidUtf8
  | _ => other failure.detail

/-- The message for a file that cannot be read. -/
def message (path : String) : ReadError → String
  | notFound => "cannot find file '" ++ path ++ "'"
  | permissionDenied => "permission denied reading '" ++ path ++ "'"
  | invalidUtf8 => "'" ++ path ++ "' contains invalid UTF-8 data"
  | other detail => "error reading '" ++ path ++ "': " ++ detail

end ReadError

/-- The text of a file, given its bytes. -/
def decodeSource (content : ByteArray) : Except ReadFailure String :=
  match String.fromUTF8? content with
  | some text => .ok text
  | none => .error ⟨.invalidData, "stream did not contain valid UTF-8"⟩

/-! ## A folder as a value -/

/-- What stands under a name of a folder. -/
inductive FolderEntry where
  | file (content : ByteArray)
  | directory

/-- A working directory, given by the names in it. -/
structure Folder where
  entries : List (String × FolderEntry)

namespace Folder

/-- The longest name, in bytes. -/
def maxNameLength : Nat := 255

/-- The longest path, in bytes. -/
def maxPathLength : Nat := 4095

/-- Where a path has come to. -/
inductive Place where
  /-- In the working directory. -/
  | here
  /-- In a directory of the working directory, in which there is nothing. -/
  | below
  /-- In a directory around the working directory, of which nothing is known. -/
  | outside
  /-- At a file. -/
  | file (content : ByteArray)

/-- One name of a path, from a directory on. -/
def enter (folder : Folder) (place : Place) (name : String) : Except ReadFailure Place :=
  if maxNameLength < name.utf8ByteSize then .error .nameTooLong
  else
    match place with
    | .here =>
      match folder.entries.lookup name with
      | some (.file content) => .ok (.file content)
      | some .directory => .ok .below
      | none => .error .noSuchFile
    | _ => .error .noSuchFile

/-- The directory around a place. -/
def parent : Place → Place
  | .below => .here
  | _ => .outside

/-- Follows the parts of a path.  Nothing comes behind a file, not even an empty
part. -/
def walk (folder : Folder) (place : Place) : List String → Except ReadFailure Place
  | [] => .ok place
  | part :: parts =>
    match place with
    | .file _ => .error .notADirectory
    | _ =>
      if part = "" ∨ part = "." then folder.walk place parts
      else if part = ".." then folder.walk (parent place) parts
      else
        match folder.enter place part with
        | .ok next => folder.walk next parts
        | .error failure => .error failure

/-- Reads the source file under a path. -/
def read (folder : Folder) (path : String) : Except ReadFailure String :=
  let parts := (path.toList.splitOn '/').map String.ofList
  let origin := if path.toList.head? = some '/' then .outside else .here
  if path = "" then .error .noSuchFile
  else if maxPathLength < path.utf8ByteSize then .error .nameTooLong
  else
    match folder.walk origin parts with
    | .ok (.file content) => decodeSource content
    | .ok _ => .error .isADirectory
    | .error failure => .error failure

end Folder

end OCamlHighlight
