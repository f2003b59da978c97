/-
# The pieces of a line

Spans name the parts of a line by offsets.  A `Piece` is such a part with the
characters that it has, so that the line is the pieces one after the other and no
offset has to be looked up.

* `exists_pieces`: the tokens of a line are those of its pieces;
* `Span.text_place`: slicing the line at the spans gives the pieces back;
* `merge_place`: joining spans is joining pieces, and a joined line is cut only
  where the label changes (`isChain_merge`).
-/
import OCamlHighlight.Proofs.ConsistentState

namespace OCamlHighlight

/-- Characters of a line under one tag. -/
structure Piece where
  tag : Tag
  text : List Char

namespace Piece

/-- The token of a piece. -/
def token (piece : Piece) : Token := ⟨piece.tag, String.utf8Len piece.text⟩

/-- The characters of pieces one after the other. -/
def join (pieces : List Piece) : List Char := pieces.flatMap Piece.text

theorem join_cons (piece : Piece) (pieces : List Piece) :
    join (piece :: pieces) = piece.text ++ join pieces := rfl

/-- Each character of a piece with a mark that depends on the label. -/
def marked {α : Type} (mark : Option String → α) (piece : Piece) : List (Char × α) :=
  piece.text.map fun c => (c, mark piece.tag.label)

end Piece

open Piece

/-! ## Tokens and pieces -/

/-- The bytes of characters are as many as their widths say. -/
theorem length_flatMap_utf8EncodeChar (cs : List Char) :
    (cs.flatMap String.utf8EncodeChar).length = String.utf8Len cs := by
  rw [← bytes_ofList, length_bytes, String.utf8ByteSize_ofList]

/-- The tokens of text are those of some pieces that make it up. -/
theorem exists_pieces_of_isText {bs : List Byte} (ht : IsText bs) (state : ScanState) :
    ∃ pieces, (tokens state bs).1 = pieces.map token ∧
      (join pieces).flatMap String.utf8EncodeChar = bs := by
  induction state, bs, ht using scan_induction with
  | nil state => exact ⟨[], by rw [tokens_nil]; rfl, rfl⟩
  | cons state bs step ht hs ih =>
    obtain ⟨pieces, htokens, hrest⟩ := ih
    obtain ⟨hlen, ⟨cs, hcs⟩, -⟩ := isCut_step? ht hs
    have hwidth : String.utf8Len cs = step.token.length := by
      rw [← length_flatMap_utf8EncodeChar, ← hcs, List.length_take, Nat.min_eq_left hlen]
    refine ⟨⟨step.token.tag, cs⟩ :: pieces, ?_, ?_⟩
    · rw [tokens_of_step? hs, htokens, List.map_cons, token, hwidth]
    · rw [join_cons, List.flatMap_append, hrest, ← hcs, rest_of_step? hs,
        List.take_append_drop]

/-- **A line is cut into pieces.**  They are the characters of the line, and behind a
consistent state none of them is empty. -/
theorem exists_pieces {state : ScanState} (hc : state.Consistent) (line : String) :
    ∃ pieces, (tokens state (bytes line)).1 = pieces.map token ∧ join pieces = line.toList ∧
      ∀ piece ∈ pieces, piece.text ≠ [] := by
  have ht := isText_bytes line
  obtain ⟨pieces, htokens, hbytes⟩ := exists_pieces_of_isText ht state
  refine ⟨pieces, htokens, ?_, fun piece hmem hnil => ?_⟩
  · rw [← bytes_ofList] at hbytes
    rw [← eq_of_bytes_eq hbytes, String.toList_ofList]
  · -- A piece without characters has a token without bytes.
    have hempty := filter_length_zero_tokens ht state
    rw [if_neg fun h => hc.not_hollow h.1, htokens, List.filter_eq_nil_iff] at hempty
    refine hempty piece.token (List.mem_map_of_mem hmem) ?_
    rw [token, hnil]
    rfl

/-! ## Slices -/

/-- A valid position is found. -/
theorem exists_pos? {line : String} {offset : Nat}
    (h : (⟨offset⟩ : String.Pos.Raw).IsValid line) :
    ∃ pos : line.Pos, line.pos? ⟨offset⟩ = some pos ∧ pos.offset.byteIdx = offset := by
  have hslice := String.Pos.Raw.isValidForSlice_toSlice_iff.mpr h
  refine ⟨String.Pos.ofToSlice ⟨⟨offset⟩, hslice⟩, ?_, rfl⟩
  unfold String.pos? String.Slice.pos?
  rw [dif_pos (String.Pos.Raw.isValidForSlice_eq_true_iff.mpr hslice)]
  rfl

/-- Behind characters there is a position of the line. -/
theorem isValid_utf8Len (front back : List Char) :
    (⟨String.utf8Len front⟩ : String.Pos.Raw).IsValid (String.ofList (front ++ back)) := by
  refine String.Pos.Raw.isValid_iff_exists_append.mpr
    ⟨String.ofList front, String.ofList back, ?_, ?_⟩
  · rw [String.ofList_append]
  · rw [← String.utf8ByteSize_ofList]
    rfl

/-- **A slice of a line.**  Characters between others are found by their offsets. -/
theorem Span.text_of_append (front mid back : List Char) (tag : Tag) :
    Span.text ⟨String.utf8Len front, String.utf8Len front + String.utf8Len mid, tag⟩
      (String.ofList (front ++ mid ++ back)) = String.ofList mid := by
  have hstart : (⟨String.utf8Len front⟩ : String.Pos.Raw).IsValid
      (String.ofList (front ++ mid ++ back)) := by
    rw [List.append_assoc]
    exact isValid_utf8Len front (mid ++ back)
  have hstop := isValid_utf8Len (front ++ mid) back
  rw [String.utf8Len_append] at hstop
  obtain ⟨first, hfirst, hfirstIdx⟩ := exists_pos? hstart
  obtain ⟨last, hlast, hlastIdx⟩ := exists_pos? hstop
  unfold text
  rw [hfirst, hlast]
  refine eq_of_bytes_eq ?_
  have hslice : bytes (String.extract first last)
      = (bytes (String.ofList (front ++ mid ++ back))).extract first.offset.byteIdx
          last.offset.byteIdx := by
    unfold bytes
    rw [String.toByteArray_extract, ByteArray.data_extract, Array.toList_extract]
  refine hslice.trans ?_
  rw [hfirstIdx, hlastIdx, bytes_ofList, bytes_ofList, List.flatMap_append, List.flatMap_append,
    ← length_flatMap_utf8EncodeChar, ← length_flatMap_utf8EncodeChar, List.append_assoc,
    List.extract_eq_take_drop, List.drop_left, Nat.add_sub_cancel_left, List.take_left]

/-- The pieces between other characters of a line are its slices at their spans. -/
theorem Span.text_place (front : List Char) (pieces : List Piece) (back : List Char) :
    (Span.place (String.utf8Len front) (pieces.map token)).map
        (fun span => (span.tag, span.text (String.ofList (front ++ join pieces ++ back))))
      = pieces.map fun piece => (piece.tag, String.ofList piece.text) := by
  induction pieces generalizing front with
  | nil => rfl
  | cons piece pieces ih =>
    have hrest := ih (front ++ piece.text)
    rw [String.utf8Len_append, List.append_assoc front] at hrest
    have hfirst := Span.text_of_append front piece.text (join pieces ++ back) piece.tag
    rw [← List.append_assoc, List.append_assoc front] at hfirst
    rw [join_cons, List.map_cons, Span.place_cons, List.map_cons, List.map_cons, ← hrest]
    exact congrArg (fun text => (piece.tag, text) :: _) hfirst

/-- **The slices of a line** at the spans of its pieces, with whatever stands behind it. -/
theorem Span.text_pieces {line : String} {pieces : List Piece} (h : join pieces = line.toList)
    (tail : String) :
    (Span.place 0 (pieces.map token)).map (fun span => (span.tag, span.text (line ++ tail)))
      = pieces.map fun piece => (piece.tag, String.ofList piece.text) := by
  have htexts := Span.text_place [] pieces tail.toList
  rwa [List.nil_append, h, ← String.toList_append, String.ofList_toList] at htexts

/-! ## Joining -/

namespace Piece

/-- Joins pieces behind `last`, which keeps its tag while it grows. -/
def mergeFrom (last : Piece) : List Piece → List Piece
  | [] => [last]
  | piece :: pieces =>
    if last.tag.label = piece.tag.label then mergeFrom ⟨last.tag, last.text ++ piece.text⟩ pieces
    else last :: mergeFrom piece pieces

/-- Joins every piece with those before it that have its label. -/
def merge : List Piece → List Piece
  | [] => []
  | piece :: pieces => mergeFrom piece pieces

/-- The pieces of a line touch, so that spans are joined where pieces are. -/
theorem mergeFrom_place (start : Nat) (last : Piece) (pieces : List Piece) :
    Span.mergeFrom ⟨start, start + String.utf8Len last.text, last.tag⟩
        (Span.place (start + String.utf8Len last.text) (pieces.map token))
      = Span.place start ((mergeFrom last pieces).map token) := by
  induction pieces generalizing start last with
  | nil => rfl
  | cons piece pieces ih =>
    rw [List.map_cons, Span.place_cons, mergeFrom, Span.mergeFrom]
    by_cases hlabel : last.tag.label = piece.tag.label
    · have hgrown := ih start ⟨last.tag, last.text ++ piece.text⟩
      rw [String.utf8Len_append, ← Nat.add_assoc] at hgrown
      rw [if_pos hlabel, if_pos (by simpa [Span.joins, Span.label, token] using hlabel)]
      exact hgrown
    · rw [if_neg hlabel, if_neg (by simpa [Span.joins, Span.label, token] using hlabel)]
      exact congrArg (_ :: ·) (ih (start + String.utf8Len last.text) piece)

/-- **Joining spans is joining pieces.** -/
theorem merge_place (start : Nat) (pieces : List Piece) :
    Span.merge (Span.place start (pieces.map token))
      = Span.place start ((merge pieces).map token) := by
  cases pieces with
  | nil => rfl
  | cons piece pieces => exact mergeFrom_place start piece pieces

/-- Joining loses no character, and none changes its label. -/
theorem flatMap_marked_mergeFrom {α : Type} (mark : Option String → α) (last : Piece)
    (pieces : List Piece) :
    (mergeFrom last pieces).flatMap (marked mark)
      = marked mark last ++ pieces.flatMap (marked mark) := by
  induction pieces generalizing last with
  | nil => simp [mergeFrom]
  | cons piece pieces ih =>
    rw [mergeFrom, List.flatMap_cons]
    by_cases hlabel : last.tag.label = piece.tag.label
    · rw [if_pos hlabel, ih, ← List.append_assoc]
      simp only [marked, List.map_append, hlabel]
    · rw [if_neg hlabel, List.flatMap_cons, ih]

/-- **Joining changes no mark.** -/
theorem flatMap_marked_merge {α : Type} (mark : Option String → α) (pieces : List Piece) :
    (merge pieces).flatMap (marked mark) = pieces.flatMap (marked mark) := by
  cases pieces with
  | nil => rfl
  | cons piece pieces => exact flatMap_marked_mergeFrom mark piece pieces

/-- The marked characters are those of the pieces. -/
theorem map_fst_flatMap_marked {α : Type} (mark : Option String → α) (pieces : List Piece) :
    (pieces.flatMap (marked mark)).map Prod.fst = join pieces := by
  induction pieces with
  | nil => rfl
  | cons piece pieces ih =>
    rw [List.flatMap_cons, List.map_append, ih, join_cons, marked, List.map_map]
    show piece.text.map id ++ _ = _
    rw [List.map_id]

/-- Joined pieces are the same characters. -/
theorem join_merge (pieces : List Piece) : join (merge pieces) = join pieces := by
  rw [← map_fst_flatMap_marked id, flatMap_marked_merge, map_fst_flatMap_marked]

/-- No piece gets empty. -/
theorem text_ne_nil_of_mem_mergeFrom {last : Piece} {pieces : List Piece}
    (h : ∀ piece ∈ last :: pieces, piece.text ≠ []) :
    ∀ piece ∈ mergeFrom last pieces, piece.text ≠ [] := by
  induction pieces generalizing last with
  | nil => exact h
  | cons piece pieces ih =>
    rw [mergeFrom]
    obtain ⟨hlast, hrest⟩ := List.forall_mem_cons.mp h
    by_cases hlabel : last.tag.label = piece.tag.label
    · rw [if_pos hlabel]
      refine ih (List.forall_mem_cons.mpr ⟨?_, (List.forall_mem_cons.mp hrest).2⟩)
      exact List.append_ne_nil_of_left_ne_nil hlast _
    · rw [if_neg hlabel]
      exact List.forall_mem_cons.mpr ⟨hlast, ih hrest⟩

theorem text_ne_nil_of_mem_merge {pieces : List Piece} (h : ∀ piece ∈ pieces, piece.text ≠ []) :
    ∀ piece ∈ merge pieces, piece.text ≠ [] := by
  cases pieces with
  | nil => exact h
  | cons piece pieces => exact text_ne_nil_of_mem_mergeFrom h

/-- The first joined piece has the tag that it began with. -/
theorem head?_mergeFrom (last : Piece) (pieces : List Piece) :
    (mergeFrom last pieces).head?.map Piece.tag = some last.tag := by
  induction pieces generalizing last with
  | nil => rfl
  | cons piece pieces ih =>
    rw [mergeFrom]
    by_cases hlabel : last.tag.label = piece.tag.label
    · rw [if_pos hlabel]
      exact ih ⟨last.tag, last.text ++ piece.text⟩
    · rw [if_neg hlabel]
      rfl

/-- Joined pieces that touch have different labels. -/
theorem isChain_mergeFrom (last : Piece) (pieces : List Piece) :
    (mergeFrom last pieces).IsChain fun piece next => piece.tag.label ≠ next.tag.label := by
  induction pieces generalizing last with
  | nil => exact List.isChain_singleton last
  | cons piece pieces ih =>
    rw [mergeFrom]
    by_cases hlabel : last.tag.label = piece.tag.label
    · rw [if_pos hlabel]
      exact ih _
    · rw [if_neg hlabel, List.isChain_cons]
      refine ⟨fun next hnext => ?_, ih piece⟩
      have htag := head?_mergeFrom piece pieces
      rw [hnext] at htag
      rwa [Option.some.inj htag]

/-- **A line is cut only where the label changes.** -/
theorem isChain_merge (pieces : List Piece) :
    (merge pieces).IsChain fun piece next => piece.tag.label ≠ next.tag.label := by
  cases pieces with
  | nil => exact List.isChain_nil
  | cons piece pieces => exact isChain_mergeFrom piece pieces

end Piece

end OCamlHighlight
