/-
# Highlighting through one line buffer

A host that goes through a document keeps one line buffer and puts line after line
into it.  Here are the highlighter and the states of lines in this form.  They scan
with checked operations over storage in which other lines have stood before, so that
every one of them has a result or ends in a fault.

`BufferedHighlighter.run` answers a whole session of requests.
-/
import OCamlHighlight.LineScanner
import OCamlHighlight.LineStates

namespace OCamlHighlight

/-- The tokens of the line in a buffer that is entered in the given state, and the
state in which it leaves the next line. -/
def LineBuffer.tokens (buffer : LineBuffer) (state : ScanState) :
    Except Fault (List Token × ScanState) := do
  let scanner ← LineScanner.ofBuffer buffer state
  let (acc, final) ← scanner.collect #[]
  return (acc.toList, final)

/-- A line on its own is scanned in a buffer of its own. -/
theorem LineBuffer.tokens_ofLine (line : String) (state : ScanState) :
    (LineBuffer.ofLine line).tokens state = tokenizeLine state line := rfl

/-- The state carried through a document, the buffer that its lines are put into, and
the number of lines since the start or the last reset. -/
structure BufferedHighlighter where
  state : ScanState
  buffer : LineBuffer
  linesSeen : Nat
  deriving DecidableEq, Repr

namespace BufferedHighlighter

/-- Goes on from a state that was saved between two lines, with a new buffer. -/
def resume (state : ScanState) : BufferedHighlighter := ⟨state, .ofLine "", 0⟩

/-- The highlighter at the top of a document. -/
def new : BufferedHighlighter := resume .start

/-- Goes back to the top of a document.  The buffer is kept. -/
def reset (highlighter : BufferedHighlighter) : BufferedHighlighter :=
  ⟨.start, highlighter.buffer, 0⟩

/-- Highlights one line. -/
def line (highlighter : BufferedHighlighter) (text : String) :
    Except Fault (List Span × BufferedHighlighter) := do
  let buffer := highlighter.buffer.reset text
  let (tokens, state) ← buffer.tokens highlighter.state
  return (Span.place 0 tokens, ⟨state, buffer, highlighter.linesSeen + 1⟩)

/-- Highlights one line, with spans that look the same joined. -/
def lineMerged (highlighter : BufferedHighlighter) (text : String) :
    Except Fault (List Span × BufferedHighlighter) := do
  let (spans, next) ← highlighter.line text
  return (Span.merge spans, next)

/-! ## Sessions -/

/-- What a host can ask of a highlighter. -/
inductive Request where
  /-- A new highlighter in its place. -/
  | new
  /-- A new highlighter that goes on from a state. -/
  | resume (state : ScanState)
  /-- Back to the top of a document. -/
  | reset
  /-- The spans of a line. -/
  | line (text : String)
  /-- The joined spans of a line. -/
  | lineMerged (text : String)
  deriving DecidableEq, Repr

/-- What a host sees after a request: the spans, if it has asked for some, the state
and the number of lines. -/
structure Answer where
  spans : Option (List Span)
  state : ScanState
  linesSeen : Nat
  deriving DecidableEq, Repr

/-- Carries out a request, and returns the spans that it asks for. -/
def serve (highlighter : BufferedHighlighter) :
    Request → Except Fault (Option (List Span) × BufferedHighlighter)
  | .new => .ok (none, new)
  | .resume state => .ok (none, resume state)
  | .reset => .ok (none, highlighter.reset)
  | .line text => do
    let (spans, next) ← highlighter.line text
    return (some spans, next)
  | .lineMerged text => do
    let (spans, next) ← highlighter.lineMerged text
    return (some spans, next)

/-- Carries out requests one after the other.  A fault ends the session. -/
def run (highlighter : BufferedHighlighter) :
    List Request → Except Fault (List Answer × BufferedHighlighter)
  | [] => .ok ([], highlighter)
  | request :: requests => do
    let (spans, next) ← highlighter.serve request
    let (answers, final) ← next.run requests
    return (⟨spans, next.state, next.linesSeen⟩ :: answers, final)

/-- The answers to requests from the top of a document on. -/
def answers (requests : List Request) : Except Fault (List Answer) := do
  let (answers, _) ← new.run requests
  return answers

/-! ## Documents -/

/-- Highlights lines one after the other. -/
def lines (highlighter : BufferedHighlighter) : List String → Except Fault (List (List Span))
  | [] => .ok []
  | text :: rest => do
    let (spans, next) ← highlighter.line text
    return spans :: (← next.lines rest)

/-- Highlights every line of a text, from the top of a document. -/
def document (text : String) : Except Fault (List (List Span)) := new.lines (linesOf text)

end BufferedHighlighter

namespace LineStates

/-! ## States of lines -/

/-- `refresh` through a buffer. -/
def bufferedRefresh (buffer : LineBuffer) (state : ScanState) :
    List String → List (Option ScanState) → Except Fault (List (Option ScanState) × Nat)
  | line :: lines, entry :: entries => do
    let buffer := buffer.reset line
    let (_, next) ← buffer.tokens state
    if entry = some next then
      return (entry :: entries, 1)
    else
      let (rest, count) ← bufferedRefresh buffer next lines entries
      return (some next :: rest, count + 1)
  | _, entries => .ok (entries, 0)

/-- `rescan` through a buffer. -/
def bufferedRescan (states : LineStates) (lines : List String) (line : Nat) :
    Except Fault (LineStates × Nat) := do
  let entries := resize states.entries (lines.length + 1)
  let first := lastKnown entries (min line lines.length)
  let state := entries[first]?.join.getD .start
  let (rest, count) ←
    bufferedRefresh (.ofLine "") state (lines.drop first) (entries.drop (first + 1))
  return (⟨entries.take (first + 1) ++ rest⟩, count)

/-- The states of a whole document, scanned through a buffer. -/
def bufferedOfLines (lines : List String) : Except Fault LineStates := do
  let (states, _) ← new.bufferedRescan lines 0
  return states

end LineStates

end OCamlHighlight
