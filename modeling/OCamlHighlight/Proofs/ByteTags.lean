/-
# The tags of the bytes of a line

Two scans of the same bytes may cut them into different tokens and still look the
same.  `view` is what such scans have in common: the tag of every byte that is not
blank, and the state behind the line.

Main facts:

* `getElem?_view`: the view has the tags that the spans of the tokens give
  (`Span.tagAt`);
* `view_of_step?`: the view of a line is that of its first token in front of the
  view of what is left;
* `view_blanks`: blanks in front of a line do not change its view.
-/
import OCamlHighlight.Proofs.TokenSteps
import OCamlHighlight.Span

namespace OCamlHighlight

open Byte Extent

/-- The tag of the span that covers a byte, if one does. -/
def Span.tagAt (spans : List Span) (offset : Nat) : Option Tag :=
  (spans.find? fun span => span.start ≤ offset && offset < span.stop).map Span.tag

/-! ## Marks -/

/-- Marks each byte that is not blank with a tag. -/
def cover (tag : Tag) (bs : List Byte) : List (Option Tag) :=
  bs.map fun b => if isBlank b then none else some tag

theorem cover_append (tag : Tag) (front back : List Byte) :
    cover tag (front ++ back) = cover tag front ++ cover tag back := List.map_append

theorem length_cover (tag : Tag) (bs : List Byte) : (cover tag bs).length = bs.length :=
  List.length_map _

/-- Where a byte is not blank it has the tag. -/
theorem getElem?_cover (tag : Tag) {bs : List Byte} {offset : Nat} {b : Byte}
    (hget : bs[offset]? = some b) (hb : isBlank b = false) :
    (cover tag bs)[offset]? = some (some tag) := by
  unfold cover
  rw [List.getElem?_map, hget, Option.map_some, hb, if_neg Bool.false_ne_true]

/-- Marks the bytes of a line with the tags of its tokens. -/
def marks : List Token → List Byte → List (Option Tag)
  | [], _ => []
  | token :: tokens, bs =>
    cover token.tag (bs.take token.length) ++ marks tokens (bs.drop token.length)

/-- All bytes are marked if the tokens are as long as the line. -/
theorem length_marks {tokens : List Token} {bs : List Byte}
    (h : (tokens.map Token.length).sum = bs.length) : (marks tokens bs).length = bs.length := by
  induction tokens generalizing bs with
  | nil => exact h
  | cons token tokens ih =>
    rw [List.map_cons, List.sum_cons] at h
    have hdrop : (tokens.map Token.length).sum = (bs.drop token.length).length := by
      rw [List.length_drop]
      omega
    rw [marks, List.length_append, length_cover, ih hdrop, List.length_take, List.length_drop]
    omega

/-- **Marks are the tags of spans.** -/
theorem getElem?_marks (tokens : List Token) (start : Nat) {bs : List Byte} {offset : Nat}
    {b : Byte} (hget : bs[offset]? = some b) (hb : isBlank b = false) :
    (marks tokens bs)[offset]?
      = (Span.tagAt (Span.place start tokens) (start + offset)).map some := by
  induction tokens generalizing start bs offset with
  | nil => rfl
  | cons token tokens ih =>
    have hoffset := (List.getElem?_eq_some_iff.mp hget).1
    unfold Span.tagAt
    rw [marks, Span.place_cons]
    by_cases hin : offset < token.length
    · have htake : (bs.take token.length)[offset]? = some b := by
        rw [List.getElem?_take_of_lt hin, hget]
      have hlen : offset < (cover token.tag (bs.take token.length)).length := by
        rw [length_cover]
        exact (List.getElem?_eq_some_iff.mp htake).1
      rw [List.getElem?_append_left hlen, getElem?_cover _ htake hb, List.find?_cons_of_pos]
      · rfl
      · simp only [Bool.and_eq_true, decide_eq_true_eq]
        omega
    · have hlen : (cover token.tag (bs.take token.length)).length = token.length := by
        rw [length_cover, List.length_take]
        omega
      have hdrop : (bs.drop token.length)[offset - token.length]? = some b := by
        rw [List.getElem?_drop, Nat.add_sub_cancel' (by omega), hget]
      have hrest := ih (start + token.length) hdrop
      rw [Nat.add_assoc, Nat.add_sub_cancel' (by omega)] at hrest
      rw [List.getElem?_append_right (by omega), hlen, hrest, List.find?_cons_of_neg]
      · rfl
      · simp only [Bool.and_eq_true, decide_eq_true_eq]
        omega

/-! ## Views -/

/-- The marks of some bytes, and the state behind them. -/
abbrev View := List (Option Tag) × ScanState

/-- The view of a line that is entered in the given state. -/
def view (state : ScanState) (bs : List Byte) : View :=
  (marks (tokens state bs).1 bs, (tokens state bs).2)

/-- A view with more bytes in front. -/
def prepend (front : List (Option Tag)) (v : View) : View := (front ++ v.1, v.2)

theorem prepend_append (front back : List (Option Tag)) (v : View) :
    prepend (front ++ back) v = prepend front (prepend back v) := by
  unfold prepend
  rw [List.append_assoc]

theorem view_nil (state : ScanState) : view state [] = ([], state) := by
  unfold view
  rw [tokens_nil]
  rfl

/-- **The first token of a view.** -/
theorem view_of_step? {state : ScanState} {bs : List Byte} {step : Step}
    (h : step? state bs = some step) :
    view state bs =
      prepend (cover step.token.tag (bs.take step.token.length)) (view step.state step.rest) := by
  unfold view
  rw [tokens_of_step? h, rest_of_step? h]
  rfl

/-- The view of text has a mark for each byte. -/
theorem length_view {bs : List Byte} (ht : IsText bs) (state : ScanState) :
    (view state bs).1.length = bs.length := length_marks (sum_length_tokens ht state)

/-- **Marks are the tags of spans.**  Each byte of text that is not blank has a
tag. -/
theorem getElem?_view {bs : List Byte} (ht : IsText bs) (state : ScanState) {offset : Nat}
    {b : Byte} (hget : bs[offset]? = some b) (hb : isBlank b = false) :
    ∃ tag, Span.tagAt (Span.place 0 (tokens state bs).1) offset = some tag ∧
      (view state bs).1[offset]? = some (some tag) := by
  have hmarks := getElem?_marks (tokens state bs).1 0 hget hb
  have hlt : offset < (view state bs).1.length := by
    rw [length_view ht]
    exact (List.getElem?_eq_some_iff.mp hget).1
  rw [Nat.zero_add] at hmarks
  cases htag : Span.tagAt (Span.place 0 (tokens state bs).1) offset with
  | none =>
    rw [htag, Option.map_none, List.getElem?_eq_none_iff] at hmarks
    exact absurd hlt (Nat.not_lt.mpr hmarks)
  | some tag =>
    rw [htag] at hmarks
    exact ⟨tag, rfl, hmarks⟩

/-! ## Blanks in front -/

/-- The blanks in front of a line are marked and taken off. -/
theorem view_eq_run (state : ScanState) (bs : List Byte) :
    view state bs =
      prepend (cover .whitespace (bs.take (run isBlank bs)))
        (view state (bs.drop (run isBlank bs))) := by
  cases bs with
  | nil => rfl
  | cons b rest =>
    by_cases hb : isBlank b = true
    · exact view_of_step? (step?_of_isBlank state rest hb)
    · rw [run_cons, if_neg hb]
      rfl

/-- No tag marks a blank. -/
theorem cover_blank (tag : Tag) {b : Byte} (hb : isBlank b = true) (bs : List Byte) :
    cover tag (b :: bs) = [none] ++ cover tag bs := by
  unfold cover
  rw [List.map_cons, if_pos hb]
  rfl

/-- A blank in front. -/
theorem view_blank (state : ScanState) {b : Byte} (hb : isBlank b = true) (bs : List Byte) :
    view state (b :: bs) = prepend [none] (view state bs) := by
  rw [view_eq_run, view_eq_run state bs, run_cons, if_pos hb, Nat.add_comm, List.take_succ_cons,
    List.drop_succ_cons, cover_blank _ hb, prepend_append]

/-- **Blanks in front of a line** have no tag and leave its view as it is. -/
theorem view_blanks (state : ScanState) {w : List Byte} (hw : ∀ x ∈ w, isBlank x = true)
    (bs : List Byte) :
    view state (w ++ bs) = prepend (List.replicate w.length none) (view state bs) := by
  induction w with
  | nil => rfl
  | cons b w ih =>
    obtain ⟨hb, hw⟩ := List.forall_mem_cons.mp hw
    rw [List.cons_append, view_blank state hb, ih hw, ← prepend_append]
    rfl

end OCamlHighlight
