/-
# Painted text

A text is painted by writing every span in the style of its tag.  Spans that
look the same and touch share one escape sequence.

`render` takes the spans of whole lines.  `bufferedRender` takes them from a highlighter
with a buffer, as the program does with lines of any length: what a line has beyond the
largest position is in no span and is not painted, and a character that is cut there ends
in a fault.  Where all lines fit into a buffer both are the same.
-/
import OCamlHighlight.BufferedHighlighter
import OCamlHighlight.Theme

namespace OCamlHighlight.Painting

/-- A line, painted span by span. -/
def paintLine (theme : Theme) (line : String) (spans : List Span) : String :=
  String.join (spans.map fun span => theme.paint span.tag (span.text line))

/-- Lines, painted one after the other, each as a whole. -/
def paintLines (theme : Theme) (highlighter : Highlighter) : List String → List String
  | [] => []
  | line :: lines =>
    let (spans, next) := highlighter.lineMerged line
    paintLine theme line spans :: paintLines theme next lines

/-- A text, painted with its whole lines; `bufferedRender` is for lines of any length. -/
def render (theme : Theme) (text : String) : String :=
  "\n".intercalate (paintLines theme .new (linesOf text))

/-- `paintLines` through a buffer. -/
def bufferedLines (theme : Theme) (highlighter : BufferedHighlighter) :
    List String → Except Fault (List String)
  | [] => .ok []
  | line :: lines => do
    let (spans, next) ← highlighter.lineMerged line
    return paintLine theme line spans :: (← bufferedLines theme next lines)

/-- `render` through a buffer. -/
def bufferedRender (theme : Theme) (text : String) : Except Fault String := do
  return "\n".intercalate (← bufferedLines theme .new (linesOf text))

end OCamlHighlight.Painting
