/-
# Spans

A span is a token placed on its line: the bytes from `start` up to `stop`.  The
spans of a line are the running sums of its token lengths (`place`), and spans
that touch and look the same can be joined (`merge`).

Main facts: `place_cons` and `merge_cons` unfold the two functions by one item.
-/
import OCamlHighlight.Fault
import OCamlHighlight.Token

namespace OCamlHighlight

/-- The bytes of a line from `start` up to `stop`, with their tag. -/
structure Span where
  start : Nat
  stop : Nat
  tag : Tag
  deriving DecidableEq, Repr

namespace Span

/-- The number of bytes of a span; a span that ends before its start has
none to count. -/
def length (span : Span) : Except Fault Nat :=
  if span.start ≤ span.stop then .ok (span.stop - span.start) else .error .reversedSpan

/-- Whether a span ends where it starts. -/
def isEmpty (span : Span) : Bool := span.start == span.stop

/-- The style label of a span. -/
def label (span : Span) : Option String := span.tag.label

/-- The text that a span covers.  It is empty if the span is reversed, reaches
past the line, or cuts a character. -/
def text (span : Span) (line : String) : String :=
  match line.pos? ⟨span.start⟩, line.pos? ⟨span.stop⟩ with
  | some first, some last => line.extract first last
  | _, _ => ""

/-! ## Spans of a line -/

/-- Places tokens one after the other from offset `start` on. -/
def place (start : Nat) : List Token → List Span
  | [] => []
  | token :: tokens =>
    ⟨start, start + token.length, token.tag⟩ :: place (start + token.length) tokens

@[simp] theorem place_nil (start : Nat) : place start [] = [] := rfl

theorem place_cons (start : Nat) (token : Token) (tokens : List Token) :
    place start (token :: tokens)
      = ⟨start, start + token.length, token.tag⟩ :: place (start + token.length) tokens := rfl

/-! ## Joining spans -/

/-- Whether `next` goes on where `span` ends, under the same label.  Spans
without a label look the same whatever their tags are. -/
def joins (span next : Span) : Bool := span.label == next.label && span.stop == next.start

/-- Joins the spans of a list behind `last`, which keeps its tag while it
grows. -/
def mergeFrom (last : Span) : List Span → List Span
  | [] => [last]
  | span :: spans =>
    if last.joins span then mergeFrom { last with stop := span.stop } spans
    else last :: mergeFrom span spans

/-- Joins every span with those before it that it goes on from. -/
def merge : List Span → List Span
  | [] => []
  | span :: spans => mergeFrom span spans

@[simp] theorem merge_nil : merge [] = [] := rfl

theorem merge_cons (span : Span) (spans : List Span) :
    merge (span :: spans) = mergeFrom span spans := rfl

end Span

end OCamlHighlight
