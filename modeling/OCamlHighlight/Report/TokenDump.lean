/-
# The token dump

A text is dumped as one entry per token, `line:start-end tag "text"`, with lines
counted from 1 and offsets in bytes.  A line that leaves another mode or another
comment depth behind is followed by an entry `line: -> mode(depth)`.

`render` takes the spans of whole lines.  `bufferedRender` takes them from a highlighter
with a buffer, as the program does with lines of any length: what a line has beyond the
largest position has no entries, and a character that is cut there ends in a fault.  Where
all lines fit into a buffer both are the same.
-/
import OCamlHighlight.BufferedHighlighter
import OCamlHighlight.Text.Decimal
import OCamlHighlight.Text.Quoted

namespace OCamlHighlight.TokenDump

open Text (decimal)

/-- The entry for a token. -/
def spanEntry (number : Nat) (line : String) (span : Span) : String :=
  decimal number ++ ":" ++ decimal span.start ++ "-" ++ decimal span.stop ++ " " ++ span.tag.name
    ++ " " ++ Text.quote (span.text line) ++ "\n"

/-- The entry for the state behind a line. -/
def stateEntry (number : Nat) (state : ScanState) : String :=
  decimal number ++ ": -> " ++ state.mode.name ++ "(" ++ decimal state.depth.toNat ++ ")\n"

/-- Whether the line between two states has an entry for the state behind it. -/
def showsState (before after : ScanState) : Bool :=
  after.mode != before.mode || after.depth != before.depth

/-- The entries of a line with the given spans between two states. -/
def spanEntries (whitespace : Bool) (number : Nat) (before after : ScanState) (line : String)
    (spans : List Span) : List String :=
  let shown := spans.filter fun span => whitespace || span.tag != .whitespace
  shown.map (spanEntry number line) ++
    if showsState before after then [stateEntry number after] else []

/-- The entries of one line, taken as a whole. -/
def lineEntries (whitespace : Bool) (number : Nat) (before : ScanState) (line : String) :
    List String :=
  let (spans, after) := spansOf before line
  spanEntries whitespace number before after line spans

/-- The entries of lines, of which the first has the given number and is entered
in the given state. -/
def entries (whitespace : Bool) (number : Nat) (state : ScanState) : List String → List String
  | [] => []
  | line :: lines =>
    lineEntries whitespace number state line
      ++ entries whitespace (number + 1) (state.after line) lines

/-- The dump of a text with its whole lines; `bufferedRender` is for lines of any length.
Whitespace tokens are left out unless they are asked for. -/
def render (whitespace : Bool) (text : String) : String :=
  String.join (entries whitespace 1 .start (linesOf text))

/-- `entries` through a buffer. -/
def bufferedEntries (whitespace : Bool) (number : Nat) (highlighter : BufferedHighlighter) :
    List String → Except Fault (List String)
  | [] => .ok []
  | line :: lines => do
    let (spans, next) ← highlighter.line line
    return spanEntries whitespace number highlighter.state next.state line spans
      ++ (← bufferedEntries whitespace (number + 1) next lines)

/-- `render` through a buffer. -/
def bufferedRender (whitespace : Bool) (text : String) : Except Fault String := do
  return String.join (← bufferedEntries whitespace 1 .new (linesOf text))

end OCamlHighlight.TokenDump
