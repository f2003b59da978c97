/-
# Highlighting a document line by line

A `Highlighter` is fed the lines of a document from top to bottom.  It carries
the scan state from line to line and answers each line with its spans.  What a
line is answered with depends only on the line and the state carried into it.
-/
import OCamlHighlight.Lexeme.Line
import OCamlHighlight.Span

namespace OCamlHighlight

/-- The lines of a text.  Lines end at line feeds only, so a carriage return is
part of its line; the text after the last line feed is a line too. -/
def linesOf (text : String) : List String := (text.toList.splitOn '\n').map String.ofList

/-- The spans of a line that is entered in the given state, and the state in
which it leaves the next line. -/
def spansOf (state : ScanState) (line : String) : List Span × ScanState :=
  let (tokens, final) := tokens state (bytes line)
  (Span.place 0 tokens, final)

/-- The state behind a line that is entered in the given state. -/
def ScanState.after (state : ScanState) (line : String) : ScanState :=
  (tokens state (bytes line)).2

/-- The state carried through a document, and the number of lines it has come
through. -/
structure Highlighter where
  state : ScanState
  linesSeen : Nat
  deriving DecidableEq, Repr

namespace Highlighter

/-- Goes on from a state that was saved between two lines. -/
def resume (state : ScanState) : Highlighter := ⟨state, 0⟩

/-- The highlighter at the top of a document. -/
def new : Highlighter := resume .start

/-- Goes back to the top of a document. -/
def reset (_ : Highlighter) : Highlighter := ⟨.start, 0⟩

/-- Highlights one line. -/
def line (highlighter : Highlighter) (text : String) : List Span × Highlighter :=
  let (spans, state) := spansOf highlighter.state text
  (spans, ⟨state, highlighter.linesSeen + 1⟩)

/-- Highlights one line, with spans that look the same joined. -/
def lineMerged (highlighter : Highlighter) (text : String) : List Span × Highlighter :=
  let (spans, next) := highlighter.line text
  (Span.merge spans, next)

/-- Highlights lines one after the other. -/
def lines (highlighter : Highlighter) : List String → List (List Span)
  | [] => []
  | text :: rest =>
    let (spans, next) := highlighter.line text
    spans :: next.lines rest

end Highlighter

/-- Highlights every line of a text, from the top of a document. -/
def highlightDocument (text : String) : List (List Span) := Highlighter.new.lines (linesOf text)

end OCamlHighlight
