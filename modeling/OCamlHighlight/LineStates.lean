/-
# Scan states of the lines of a document

`LineStates` remembers the scan state before every line of a document and after
the last one, so that an editor need not scan the whole document again when a
few lines change.

An editor first says which lines were replaced (`edit`), which moves the states
of later lines to their new places and forgets those inside the edited region.
Then it scans from the first changed line (`rescan`), and scanning stops behind
the first line that leaves the state which is remembered for the next line
already.  A state that is not known never stops a scan.

Scans here take every line as a whole, whatever its length.  An editor puts its
lines into a buffer, which cuts off what is beyond the largest position; the scans
that do so are `bufferedRescan` and `bufferedOfLines`, and they are `rescan` and
`ofLines` where all lines fit.

An edit may name any number of new lines, also one whose states could not be
held.  `checkedEdit` faults on such an edit and is `edit` on every other.

Main fact: `length_edit` gives the number of entries after an edit, which
`checkedEdit` compares with the limit before it makes them.
-/
import OCamlHighlight.Fault
import OCamlHighlight.Highlighter

namespace OCamlHighlight

/-- The states before the lines of a document, and after its last line.  A
state may be unknown. -/
structure LineStates where
  entries : List (Option ScanState)
  deriving DecidableEq, Repr

namespace LineStates

/-- The states of a document without lines. -/
def new : LineStates := ⟨[some .start]⟩

/-- The number of lines. -/
def lineCount (states : LineStates) : Nat := states.entries.length - 1

/-- The state before a line, if it is known. -/
def before (states : LineStates) (line : Nat) : Option ScanState := states.entries[line]?.join

/-- The state after a line, if it is known. -/
def after (states : LineStates) (line : Nat) : Option ScanState := states.before (line + 1)

/-! ## Edits -/

/-- The entries, cut off or filled up with unknown ones to the given number. -/
def resize (entries : List (Option ScanState)) (count : Nat) : List (Option ScanState) :=
  entries.take count ++ List.replicate (count - entries.length) none

/-- Notes that `removed` lines from `at` on were replaced by `inserted` new
ones.  The state before the first line that was not touched is kept, so that a
later scan can stop at it. -/
def edit (states : LineStates) (line removed inserted : Nat) : LineStates :=
  let first := min line states.lineCount
  let last := min (first + removed) states.lineCount
  let target := states.entries[last]?.join
  let tail := states.entries.drop (last + 1)
  let front := states.entries.take (first + 1)
  let middle := if inserted = 0 then front else resize front (first + inserted) ++ [target]
  ⟨middle ++ tail⟩

/-- The greatest number of entries that can be held: at eight bytes each, one
more would take 2^63 bytes. -/
def maxEntries : Nat := 1152921504606846975

/-- The number of entries that an edit leads to. -/
def countAfterEdit (states : LineStates) (line removed inserted : Nat) : Nat :=
  let first := min line states.lineCount
  let last := min (first + removed) states.lineCount
  states.entries.length - (last - first) + inserted

/-- An edit whose entries can be held. -/
def checkedEdit (states : LineStates) (line removed inserted : Nat) : Except Fault LineStates :=
  if states.countAfterEdit line removed inserted ≤ maxEntries then
    .ok (states.edit line removed inserted)
  else .error .tooManyStates

/-- Resizing gives the number of entries that was asked for. -/
@[simp] theorem length_resize (entries : List (Option ScanState)) (count : Nat) :
    (resize entries count).length = count := by
  simp only [resize, List.length_append, List.length_take, List.length_replicate]
  omega

/-- **The size of an edit.**  An edit removes the entries of the lines it
replaces and adds one for each new line. -/
theorem length_edit (states : LineStates) (line removed inserted : Nat)
    (h : states.entries ≠ []) :
    (states.edit line removed inserted).entries.length
      = states.countAfterEdit line removed inserted := by
  have hpos := List.length_pos_iff.mpr h
  simp only [edit, countAfterEdit, lineCount]
  split <;> simp only [List.length_append, List.length_take, List.length_drop,
    length_resize, List.length_singleton] <;> omega

/-! ## Scanning -/

/-- The last line up to the given one whose state is known; line zero if there
is none. -/
def lastKnown (entries : List (Option ScanState)) : Nat → Nat
  | 0 => 0
  | line + 1 => if entries[line + 1]?.join.isSome then line + 1 else lastKnown entries line

/-- Scans whole lines and writes the state behind each into the entries after it,
until an entry holds that state already.  Returns the entries and the number of
lines scanned. -/
def refresh (state : ScanState) :
    List String → List (Option ScanState) → List (Option ScanState) × Nat
  | line :: lines, entry :: entries =>
    let next := state.after line
    if entry = some next then (entry :: entries, 1)
    else
      let (rest, count) := refresh next lines entries
      (some next :: rest, count + 1)
  | _, entries => (entries, 0)

/-- Scans the lines of a document from the last known state up to `line` on, each
as a whole; `bufferedRescan` is what an editor does with lines of any length.
Returns the states and the number of lines scanned. -/
def rescan (states : LineStates) (lines : List String) (line : Nat) : LineStates × Nat :=
  let entries := resize states.entries (lines.length + 1)
  let first := lastKnown entries (min line lines.length)
  let state := entries[first]?.join.getD .start
  let (rest, count) := refresh state (lines.drop first) (entries.drop (first + 1))
  (⟨entries.take (first + 1) ++ rest⟩, count)

/-- The states of a whole document, each line scanned as a whole; `bufferedOfLines`
is what an editor does with lines of any length. -/
def ofLines (lines : List String) : LineStates := (new.rescan lines 0).1

end LineStates

end OCamlHighlight
