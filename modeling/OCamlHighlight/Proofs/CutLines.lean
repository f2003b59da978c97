/-
# Lines that are longer than a buffer

A buffer takes a line up to the largest position and drops what is behind it.  Where a
character ends just there, no fault comes of it, and nothing that looks at the line through
the buffer sees the tail.

* `LineBuffer.ofLine_append`: the tail does not get into the buffer, and so the spans are
  those of the line without it (`BufferedHighlighter.line_append`).
* `Span.text_append`: these spans have the same texts on both lines.
* `blanks` are lines of any length, for instance too long by one byte.
-/
import OCamlHighlight.Proofs.DriverAgreement
import OCamlHighlight.Proofs.LinePieces
import OCamlHighlight.Proofs.TextLines

namespace OCamlHighlight

open Piece

section Full

variable {line : String} (full : line.utf8ByteSize = LineBuffer.maxLength) (tail : String)

include full

/-- A line that fills the buffer fits. -/
theorem fits_of_full : line.utf8ByteSize < 2 ^ 32 := by
  rw [full]
  exact Nat.lt_succ_self LineBuffer.maxLength

/-- **A full buffer has no room for more.** -/
theorem LineBuffer.ofLine_append : ofLine (line ++ tail) = ofLine line := by
  have hlen : (bytes line).length = maxLength := by rw [length_bytes, full]
  have hcut : (bytes (line ++ tail)).take maxLength = (bytes line).take maxLength := by
    rw [bytes_append, List.take_left' hlen, List.take_of_length_le hlen.le]
  unfold ofLine reset
  rw [hcut]

theorem tokenizeLine_append (state : ScanState) :
    tokenizeLine state (line ++ tail) = tokenizeLine state line := by
  rw [← LineBuffer.tokens_ofLine, ← LineBuffer.tokens_ofLine, LineBuffer.ofLine_append full]

/-- **The tail of a line is not seen.**  A highlighter answers as it does without it. -/
theorem BufferedHighlighter.line_append (highlighter : BufferedHighlighter) :
    highlighter.line (line ++ tail) = highlighter.line line := by
  rw [line_eq, line_eq, tokenizeLine_append full, LineBuffer.ofLine_append full]

end Full

/-- **The texts of spans** do not depend on what stands behind the line. -/
theorem Span.text_append {line : String} {pieces : List Piece} (h : join pieces = line.toList)
    (tail : String) {span : Span} (hmem : span ∈ Span.place 0 (pieces.map token)) :
    span.text (line ++ tail) = span.text line := by
  have htexts := (Span.text_pieces h tail).trans (Span.text_pieces h "").symm
  rw [String.append_empty] at htexts
  exact congrArg Prod.snd (List.map_inj_left.mp htexts span hmem)

/-! ## Blanks -/

/-- A line of blanks. -/
def blanks (n : Nat) : String := String.ofList (List.replicate n ' ')

theorem utf8ByteSize_blanks (n : Nat) : (blanks n).utf8ByteSize = n := by
  rw [blanks, ← length_bytes, bytes_ofList, List.flatMap_replicate]
  show (List.replicate n [(0x20 : Byte)]).flatten.length = n
  rw [List.flatten_replicate_singleton, List.length_replicate]

/-- One blank more. -/
theorem blanks_succ (n : Nat) : blanks (n + 1) = blanks n ++ " " := by
  unfold blanks
  rw [List.replicate_succ', String.ofList_append]

/-- There is no line feed among blanks. -/
theorem newline_not_mem_blanks (n : Nat) : '\n' ∉ (blanks n).toList := by
  rw [blanks, String.toList_ofList]
  intro hmem
  cases List.eq_of_mem_replicate hmem

/-- Blanks that fill the buffer are a text whose lines fit. -/
theorem fits_blanks {n : Nat} (full : n = LineBuffer.maxLength) :
    ∀ line ∈ linesOf (blanks n), line.utf8ByteSize < 2 ^ 32 := by
  rw [linesOf_line (newline_not_mem_blanks n)]
  exact List.forall_mem_singleton.mpr (fits_of_full ((utf8ByteSize_blanks n).trans full))

/-- The length of a line of blanks tells it from the others. -/
theorem blanks_inj {n m : Nat} (h : blanks n = blanks m) : n = m := by
  rw [← utf8ByteSize_blanks n, h, utf8ByteSize_blanks]

end OCamlHighlight
