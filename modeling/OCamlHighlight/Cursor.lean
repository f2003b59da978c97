/-
# A cursor over a line buffer

A cursor is a position in a line buffer.  It reads one byte at a time, and a
read outside the buffer is a fault; moving forward is not checked against the
buffer, so a cursor may come to stand outside of it.  Positions are words: a
move past the largest one is a fault as well.

A zero byte in the line is a byte like any other.  Only a zero byte at or behind
the end of the line is the sentinel (`isAtEnd`).
-/
import OCamlHighlight.Fault
import OCamlHighlight.LineBuffer

namespace OCamlHighlight

open Byte

/-- A position in a line buffer. -/
structure Cursor where
  buffer : LineBuffer
  pos : Nat
  deriving DecidableEq, Repr

/-- The cursor at the first byte of a line.  The line must have its sentinel. -/
def LineBuffer.cursor (buffer : LineBuffer) : Except Fault Cursor :=
  if buffer.storage[buffer.length]? = some 0 then .ok ⟨buffer, 0⟩ else .error .missingSentinel

namespace Cursor

/-- The largest position. -/
def maxPos : Nat := 4294967295

/-- The number of bytes of the line that are left. -/
def remaining (c : Cursor) : Nat := c.buffer.length - c.pos

/-! ## Reading -/

/-- The byte at an index of the buffer. -/
def read (c : Cursor) (index : Nat) : Except Fault Byte :=
  match c.buffer.storage[index]? with
  | some b => .ok b
  | none => .error .outOfRange

/-- The byte at the cursor; zero at the end of the line. -/
def current (c : Cursor) : Except Fault Byte := c.read c.pos

/-- The byte after the one at the cursor. -/
def peek (c : Cursor) : Except Fault Byte := c.read (c.pos + 1)

/-- The byte before the cursor; zero at the start of the line. -/
def previous (c : Cursor) : Except Fault Byte := if c.pos = 0 then .ok 0 else c.read (c.pos - 1)

/-- Whether the line is used up. -/
def isAtEnd (c : Cursor) : Except Fault Bool := do
  let b ← c.current
  return b == 0 && c.buffer.length ≤ c.pos

/-- The bytes of the line from one offset to another. -/
def slice (c : Cursor) (first last : Nat) : Except Fault (List Byte) :=
  if last ≤ c.buffer.length ∧ first ≤ last then
    .ok (c.buffer.storage.extract first last).toList
  else
    .error .badSlice

/-- The bytes of the line from an offset to the cursor. -/
def sliceFrom (c : Cursor) (first : Nat) : Except Fault (List Byte) := c.slice first c.pos

/-! ## Moving -/

/-- Steps over `n` bytes. -/
def advanceBy (c : Cursor) (n : Nat) : Except Fault Cursor :=
  if c.pos + n ≤ maxPos then .ok { c with pos := c.pos + n } else .error .positionOverflow

/-- Steps over one byte. -/
def advance (c : Cursor) : Except Fault Cursor := c.advanceBy 1

/-- Steps over one character, as wide as its first byte says. -/
def advanceChar (c : Cursor) : Except Fault Cursor := do
  let b ← c.current
  c.advanceBy (charWidth b)

/-- Steps over bytes as long as they are in the class. -/
def eatWhile (p : Byte → Bool) (c : Cursor) : Except Fault Cursor :=
  if inside : c.pos < c.buffer.storage.size then
    if p c.buffer.storage[c.pos] then
      if c.pos < maxPos then eatWhile p { c with pos := c.pos + 1 } else .error .positionOverflow
    else
      .ok c
  else
    .error .outOfRange
termination_by c.buffer.storage.size - c.pos

/-- Goes to the next byte of the line that is in the class, and returns it; or
goes to the end of the line, and returns zero.  A cursor behind the line has
nothing to search in. -/
def skipTo (p : Byte → Bool) (c : Cursor) : Except Fault (Byte × Cursor) :=
  if c.pos < c.buffer.length then
    match c.buffer.storage[c.pos]? with
    | none => .error .outOfRange
    | some b => if p b then .ok (b, c) else skipTo p { c with pos := c.pos + 1 }
  else if c.pos = c.buffer.length then
    .ok (0, c)
  else
    .error .outOfRange
termination_by c.buffer.length - c.pos

/-! ## The bytes that end or change a literal -/

/-- The bytes that mean something in a string. -/
def isStringDelimiter (b : Byte) : Bool := b == quote || b == backslash

/-- The byte that may end a quoted string. -/
def isRawStringDelimiter (b : Byte) : Bool := b == pipe

/-- The bytes that may begin a comment delimiter. -/
def isCommentDelimiter (b : Byte) : Bool := b == openParen || b == star

/-- Goes to the next byte that means something in a string. -/
def skipToStringDelimiter (c : Cursor) : Except Fault (Byte × Cursor) := c.skipTo isStringDelimiter

/-- Goes to the next byte that may end a quoted string. -/
def skipToPipe (c : Cursor) : Except Fault (Byte × Cursor) := c.skipTo isRawStringDelimiter

/-- Goes to the next byte that may begin a comment delimiter. -/
def skipToCommentDelimiter (c : Cursor) : Except Fault (Byte × Cursor) :=
  c.skipTo isCommentDelimiter

/-- Steps over blank bytes. -/
def eatBlanks (c : Cursor) : Except Fault Cursor := c.eatWhile isBlank

end Cursor

end OCamlHighlight
