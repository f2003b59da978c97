/-
# Faults

The line buffer and the cursor over it check every access, and the states of a
document's lines check that they can be held.  A fault is a broken check: the
operation has no result, and the run that asked for it ends there.
-/

namespace OCamlHighlight

/-- The checks that an operation can break. -/
inductive Fault where
  /-- A byte was read outside the buffer, or a search began behind the line. -/
  | outOfRange
  /-- A position passed the largest word. -/
  | positionOverflow
  /-- A slice reached past the line or ended before its start. -/
  | badSlice
  /-- The line in a buffer is not followed by a zero byte. -/
  | missingSentinel
  /-- A comment was closed where none is open. -/
  | depthUnderflow
  /-- A token would end before its start. -/
  | reversedToken
  /-- The length was asked of a span that ends before its start. -/
  | reversedSpan
  /-- A scan went on without coming closer to the end of the line. -/
  | stuck
  /-- An edit leads to more states of lines than can be held. -/
  | tooManyStates
  deriving DecidableEq, Repr

end OCamlHighlight
