/-
# Lines joined by blanks

What `view_append` says about bytes, said about lines: where a line is a part of a
longer one with a blank on each side (`Within`), its bytes have the same tags in
both (`Within.sameTags`).  With a blank for each line break the lines of a document
become one line, and so the spans of a document are those of that line.

Main fact: `lineBreak_as_blank`.
-/
import OCamlHighlight.Proofs.LineBreak

namespace OCamlHighlight

open Byte

/-- Every byte of the text is blank. -/
def AllBlank (w : String) : Prop := ∀ b ∈ bytes w, isBlank b = true

instance (w : String) : Decidable (AllBlank w) :=
  inferInstanceAs (Decidable (∀ b ∈ bytes w, isBlank b = true))

/-- The bytes of a line stand in a longer one behind `shift` others, and those that
are not blank have tags, which are the same in the spans of both. -/
def SameTags (line : String) (spans : List Span) (shift : Nat) (whole : String)
    (wholeSpans : List Span) : Prop :=
  ∀ offset b, (bytes line)[offset]? = some b → isBlank b = false →
    (bytes whole)[shift + offset]? = some b ∧
      ∃ tag, Span.tagAt spans offset = some tag ∧ Span.tagAt wholeSpans (shift + offset) = some tag

/-! ## Parts of a line -/

/-- The bytes and the marks of a line stand in those of a longer one behind
`shift` others. -/
structure Within (entry : ScanState) (line : List Byte) (shift : Nat) (state : ScanState)
    (whole : List Byte) : Prop where
  bytes_eq : ∃ front back, whole = front ++ line ++ back ∧ front.length = shift
  marks_eq : ∃ front back,
    (view state whole).1 = front ++ (view entry line).1 ++ back ∧ front.length = shift

namespace Within

variable {entry state : ScanState} {line whole : List Byte} {shift : Nat}

theorem refl (state : ScanState) (line : List Byte) : Within state line 0 state line :=
  ⟨⟨[], [], (List.append_nil line).symm, rfl⟩, ⟨[], [], (List.append_nil _).symm, rfl⟩⟩

/-- Bytes that begin with a blank may come behind. -/
theorem append (ht : IsText line) {back : List Byte} (hback : StartsBlank back)
    (state : ScanState) : Within state line 0 state (line ++ back) := by
  refine ⟨⟨[], back, rfl, rfl⟩, [], (view (view state line).2 back).1, ?_, rfl⟩
  rw [view_append ht hback]
  rfl

/-- Bytes may come in front, as long as the state behind them is right. -/
theorem prepend {front : List Byte} {marks : List (Option Tag)} {next : ScanState}
    (h : Within entry line shift next whole) (hmarks : marks.length = front.length)
    (hview : view state (front ++ whole) = OCamlHighlight.prepend marks (view next whole)) :
    Within entry line (front.length + shift) state (front ++ whole) := by
  obtain ⟨⟨x, y, hbytes, hx⟩, ⟨v, u, hv, hlen⟩⟩ := h
  refine ⟨⟨front ++ x, y, ?_, ?_⟩, ⟨marks ++ v, u, ?_, ?_⟩⟩
  · rw [hbytes, List.append_assoc, List.append_assoc, List.append_assoc]
  · rw [List.length_append, hx]
  · rw [hview]
    show marks ++ (view next whole).1 = _
    rw [hv, List.append_assoc, List.append_assoc, List.append_assoc]
  · rw [List.length_append, hmarks, hlen]

/-- **Parts have their tags.** -/
theorem sameTags {line whole : String} (h : Within entry (bytes line) shift state (bytes whole)) :
    SameTags line (Span.place 0 (tokens entry (bytes line)).1) shift whole
      (Span.place 0 (tokens state (bytes whole)).1) := by
  intro offset b hget hb
  obtain ⟨⟨front, back, hbytes, hfront⟩, ⟨v, u, hmarks, hv⟩⟩ := h
  have hlt := (List.getElem?_eq_some_iff.mp hget).1
  have hwhole : (bytes whole)[shift + offset]? = some b := by
    rw [hbytes, List.append_assoc, List.getElem?_append_right (by omega), hfront,
      Nat.add_sub_cancel_left, List.getElem?_append_left hlt, hget]
  refine ⟨hwhole, ?_⟩
  obtain ⟨tag, htag, hview⟩ := getElem?_view (isText_bytes line) entry hget hb
  obtain ⟨tag', htag', hview'⟩ := getElem?_view (isText_bytes whole) state hwhole hb
  have hlt' : offset < (view entry (bytes line)).1.length := by
    rwa [length_view (isText_bytes line)]
  rw [hmarks, List.append_assoc, List.getElem?_append_right (by omega), hv,
    Nat.add_sub_cancel_left, List.getElem?_append_left hlt', hview] at hview'
  obtain rfl := Option.some.inj (Option.some.inj hview')
  exact ⟨tag, htag, htag'⟩

end Within

/-! ## Two lines -/

section Blanks

variable {a w : List Byte} (ha : IsText a) (hne : w ≠ []) (hw : ∀ x ∈ w, isBlank x = true)

include hne hw

/-- Blanks begin with one. -/
theorem startsBlank_append (b : List Byte) : StartsBlank (w ++ b) := by
  obtain ⟨c, rest, rfl⟩ := List.exists_cons_of_ne_nil hne
  exact ⟨c, rest ++ b, rfl, hw c List.mem_cons_self⟩

include ha

/-- The view of two lines with blanks between them. -/
theorem view_over_blanks (state : ScanState) (b : List Byte) :
    view state ((a ++ w) ++ b) =
      prepend ((view state a).1 ++ List.replicate w.length none) (view (view state a).2 b) := by
  rw [List.append_assoc, view_append ha (startsBlank_append hne hw b), prepend_append]
  show prepend _ (view _ (w ++ b)) = _
  rw [view_blanks _ hw]

/-- The second line is a part of both. -/
theorem within_over_blanks (state : ScanState) (b : List Byte) :
    Within (view state a).2 b (a.length + w.length) state ((a ++ w) ++ b) := by
  have hlen := length_view ha state
  have h := (Within.refl (view state a).2 b).prepend
    (by rw [List.length_append, List.length_append, List.length_replicate, hlen])
    (view_over_blanks ha hne hw state b)
  rwa [Nat.add_zero, List.length_append] at h

end Blanks

/-- A text with bytes is not empty. -/
theorem bytes_ne_nil {w : String} (hw : w ≠ "") : bytes w ≠ [] := by
  intro h
  refine hw (String.toByteArray_inj.mp (ByteArray.ext (Array.toList_inj.mp ?_)))
  exact h

/-- **Two lines are one.** -/
theorem tokenizeLine_over_blanks (state : ScanState) (a w b : String) (hne : w ≠ "")
    (hw : AllBlank w) (fits : (a ++ w ++ b).utf8ByteSize < 2 ^ 32) :
    ∃ first mid second final whole,
      tokenizeLine state a = .ok (first, mid) ∧ tokenizeLine mid b = .ok (second, final) ∧
      tokenizeLine state (a ++ w ++ b) = .ok (whole, final) ∧
      SameTags a (Span.place 0 first) 0 (a ++ w ++ b) (Span.place 0 whole) ∧
      SameTags b (Span.place 0 second) (a.utf8ByteSize + w.utf8ByteSize) (a ++ w ++ b)
        (Span.place 0 whole) := by
  have ha := isText_bytes a
  have hne := bytes_ne_nil hne
  have hbytes : bytes (a ++ w ++ b) = (bytes a ++ bytes w) ++ bytes b := by
    rw [bytes_append, bytes_append]
  have hsize : a.utf8ByteSize + w.utf8ByteSize + b.utf8ByteSize < 2 ^ 32 := by
    rw [← length_bytes, hbytes, List.length_append, List.length_append] at fits
    exact fits
  have hfinal : (view state (bytes (a ++ w ++ b))).2
      = (view (view state (bytes a)).2 (bytes b)).2 := by
    rw [hbytes, view_over_blanks ha hne hw]
    rfl
  refine ⟨(tokens state (bytes a)).1, (tokens state (bytes a)).2,
    (tokens (tokens state (bytes a)).2 (bytes b)).1,
    (tokens (tokens state (bytes a)).2 (bytes b)).2, (tokens state (bytes (a ++ w ++ b))).1,
    tokenizeLine_eq (by omega) state, tokenizeLine_eq (by omega) _, ?_, ?_, ?_⟩
  · rw [tokenizeLine_eq fits]
    exact congrArg (fun last => Except.ok (_, last)) hfinal
  · apply Within.sameTags
    rw [hbytes, List.append_assoc]
    exact Within.append ha (startsBlank_append hne hw _) state
  · apply Within.sameTags
    rw [hbytes]
    exact within_over_blanks ha hne hw state (bytes b)

/-! ## Blanks around a line -/

/-- The view of blanks. -/
theorem view_allBlank (state : ScanState) {w : List Byte} (hw : ∀ x ∈ w, isBlank x = true) :
    (view state w).2 = state := by
  have h := view_blanks state hw []
  rw [List.append_nil, view_nil] at h
  rw [h]
  rfl

/-- **Blanks around a line** leave its last state as it is. -/
theorem final_of_blanks_around (state : ScanState) (indent line trail : String)
    (hindent : AllBlank indent) (htrail : AllBlank trail)
    (fits : (indent ++ line ++ trail).utf8ByteSize < 2 ^ 32) :
    ∃ short long final, tokenizeLine state line = .ok (short, final) ∧
      tokenizeLine state (indent ++ line ++ trail) = .ok (long, final) := by
  have hbytes : bytes (indent ++ line ++ trail) = bytes indent ++ (bytes line ++ bytes trail) := by
    rw [bytes_append, bytes_append, List.append_assoc]
  have hsize : indent.utf8ByteSize + (line.utf8ByteSize + trail.utf8ByteSize) < 2 ^ 32 := by
    rw [← length_bytes, hbytes, List.length_append, List.length_append] at fits
    exact fits
  have hfinal : (view state (bytes (indent ++ line ++ trail))).2
      = (view state (bytes line)).2 := by
    rw [hbytes, view_blanks state hindent]
    show (view state (bytes line ++ bytes trail)).2 = _
    by_cases hne : bytes trail = []
    · rw [hne, List.append_nil]
    · have hback := startsBlank_append hne htrail []
      rw [List.append_nil] at hback
      rw [view_append (isText_bytes line) hback]
      exact view_allBlank _ htrail
  refine ⟨(tokens state (bytes line)).1, (tokens state (bytes (indent ++ line ++ trail))).1,
    (tokens state (bytes line)).2, tokenizeLine_eq (by omega) state, ?_⟩
  rw [tokenizeLine_eq fits]
  exact congrArg (fun last => Except.ok (_, last)) hfinal

/-! ## Documents -/

/-- The offset at which a line of a document starts. -/
def lineStart (lines : List String) (index : Nat) : Nat :=
  ((lines.take index).map fun line => line.utf8ByteSize + 1).sum

/-- A text with a space for each line break. -/
def joinLines (text : String) : String := text.map fun c => if c = '\n' then ' ' else c

/-- The bytes of the lines of a text, with a space between them. -/
theorem flatMap_splitOn (cs : List Char) :
    (cs.map fun c => if c = '\n' then ' ' else c).flatMap String.utf8EncodeChar
      = [0x20].intercalate ((cs.splitOn '\n').map (·.flatMap String.utf8EncodeChar)) := by
  induction cs with
  | nil => rfl
  | cons c cs ih =>
    have hne := List.splitOn_ne_nil '\n' cs
    rw [List.splitOn_cons_eq_if_modifyHead, List.map_cons, List.flatMap_cons, ih]
    by_cases hc : c = '\n'
    · rw [if_pos hc, if_pos (beq_iff_eq.mpr hc), List.map_cons,
        List.intercalate_cons_of_ne_nil (by simp)]
      rfl
    · -- The character goes in front of the first line.
      rw [if_neg hc, if_neg fun h => hc (beq_iff_eq.mp h)]
      obtain ⟨l, ls, hls⟩ := List.exists_cons_of_ne_nil hne
      rw [hls, List.modifyHead_cons, List.map_cons, List.map_cons, List.flatMap_cons]
      cases ls with
      | nil => simp
      | cons l' ls => simp [List.intercalate_cons_cons]

theorem bytes_joinLines (text : String) :
    bytes (joinLines text) = [0x20].intercalate ((linesOf text).map bytes) := by
  have hlines : (linesOf text).map bytes
      = (text.toList.splitOn '\n').map (·.flatMap String.utf8EncodeChar) := by
    rw [linesOf, List.map_map]
    exact List.map_congr_left fun cs _ => bytes_ofList cs
  rw [hlines, ← flatMap_splitOn, ← bytes_ofList, joinLines, ← String.toList_map,
    String.ofList_toList]

/-- A space is as long as a line break. -/
theorem utf8ByteSize_joinLines (text : String) :
    (joinLines text).utf8ByteSize = text.utf8ByteSize := by
  have hlen : ∀ cs : List Char,
      ((cs.map fun c => if c = '\n' then ' ' else c).flatMap String.utf8EncodeChar).length
        = (cs.flatMap String.utf8EncodeChar).length := by
    intro cs
    induction cs with
    | nil => rfl
    | cons c cs ih =>
      rw [List.map_cons, List.flatMap_cons, List.flatMap_cons, List.length_append,
        List.length_append, ih]
      by_cases hc : c = '\n'
      · rw [if_pos hc, hc]
        rfl
      · rw [if_neg hc]
  have h := hlen text.toList
  rwa [← bytes_ofList, ← bytes_ofList, ← String.toList_map, String.ofList_toList,
    String.ofList_toList, length_bytes, length_bytes] at h

/-- Each line of a document is a part of the joined lines, entered in the state in
which the highlighter enters it. -/
theorem within_joinLines (lines : List String) (state : ScanState) (count index : Nat)
    {line : String} (hline : lines[index]? = some line) :
    ∃ entry, (Highlighter.lines ⟨state, count⟩ lines)[index]?
        = some (Span.place 0 (tokens entry (bytes line)).1) ∧
      Within entry (bytes line) (lineStart lines index) state
        ([0x20].intercalate (lines.map bytes)) := by
  induction lines generalizing state count index with
  | nil => cases hline
  | cons first lines ih =>
    have hspace : isBlank 0x20 = true := by decide
    cases lines with
    | nil =>
      cases index with
      | zero =>
        obtain rfl := Option.some.inj hline
        refine ⟨state, rfl, ?_⟩
        rw [List.map_cons, List.map_nil, List.intercalate_singleton]
        exact Within.refl state (bytes first)
      | succ index => cases hline
    | cons second lines =>
      rw [List.map_cons, List.map_cons, List.intercalate_cons_cons, ← List.map_cons]
      cases index with
      | zero =>
        obtain rfl := Option.some.inj hline
        refine ⟨state, rfl, ?_⟩
        rw [List.append_assoc]
        exact Within.append (isText_bytes first) ⟨0x20, _, rfl, hspace⟩ state
      | succ index =>
        -- The first line and the space behind it come in front of all the others.
        obtain ⟨entry, hspans, hin⟩ := ih (state.after first) (count + 1) index hline
        refine ⟨entry, hspans, ?_⟩
        have hw : ∀ x ∈ [(0x20 : Byte)], isBlank x = true := by
          simpa using hspace
        have hlen := length_view (isText_bytes first) state
        have hstart : lineStart (first :: second :: lines) (index + 1)
            = (bytes first ++ [0x20]).length + lineStart (second :: lines) index := by
          unfold lineStart
          rw [List.take_succ_cons, List.map_cons, List.sum_cons, List.length_append, length_bytes]
          rfl
        rw [hstart]
        refine hin.prepend ?_ (view_over_blanks (isText_bytes first) (by simp) hw state _)
        rw [List.length_append, List.length_append, List.length_replicate, hlen]

/-- **A document is one line.** -/
theorem highlightDocument_joinLines (text : String) (fits : text.utf8ByteSize < 2 ^ 32) :
    ∃ whole final, tokenizeLine .start (joinLines text) = .ok (whole, final) ∧
      ∀ index line, (linesOf text)[index]? = some line →
        ∃ spans, (highlightDocument text)[index]? = some spans ∧
          SameTags line spans (lineStart (linesOf text) index) (joinLines text)
            (Span.place 0 whole) := by
  have fits' : (joinLines text).utf8ByteSize < 2 ^ 32 := by rwa [utf8ByteSize_joinLines]
  refine ⟨_, _, tokenizeLine_eq fits' .start, fun index line hline => ?_⟩
  obtain ⟨entry, hspans, hin⟩ := within_joinLines (linesOf text) .start 0 index hline
  rw [← bytes_joinLines] at hin
  exact ⟨_, hspans, hin.sameTags⟩

/-! ## The line break -/

/-- **A line break is a blank.**  Two lines are scanned like one in which blanks stand
for the line break: the state behind them is the same, and so is the tag of every
byte that is not blank.  Therefore blanks around a line do not change the state
behind it, and a document has the tags of the one line in which a space stands for
each line break. -/
theorem lineBreak_as_blank :
    (∀ (state : ScanState) (a w b : String), w ≠ "" → AllBlank w →
      (a ++ w ++ b).utf8ByteSize < 2 ^ 32 →
      ∃ first mid second final whole,
        tokenizeLine state a = .ok (first, mid) ∧ tokenizeLine mid b = .ok (second, final) ∧
        tokenizeLine state (a ++ w ++ b) = .ok (whole, final) ∧
        SameTags a (Span.place 0 first) 0 (a ++ w ++ b) (Span.place 0 whole) ∧
        SameTags b (Span.place 0 second) (a.utf8ByteSize + w.utf8ByteSize) (a ++ w ++ b)
          (Span.place 0 whole)) ∧
    (∀ (state : ScanState) (indent line trail : String), AllBlank indent → AllBlank trail →
      (indent ++ line ++ trail).utf8ByteSize < 2 ^ 32 →
      ∃ short long final, tokenizeLine state line = .ok (short, final) ∧
        tokenizeLine state (indent ++ line ++ trail) = .ok (long, final)) ∧
    ∀ text : String, text.utf8ByteSize < 2 ^ 32 →
      ∃ whole final, tokenizeLine .start (joinLines text) = .ok (whole, final) ∧
        ∀ index line, (linesOf text)[index]? = some line →
          ∃ spans, (highlightDocument text)[index]? = some spans ∧
            SameTags line spans (lineStart (linesOf text) index) (joinLines text)
              (Span.place 0 whole) :=
  ⟨tokenizeLine_over_blanks, final_of_blanks_around, highlightDocument_joinLines⟩

/-- A backslash in front of the line break escapes neither the quote nor its
carriage return, whether the two lines are scanned as they are, with blanks around
them or as a document. -/
theorem lineBreak_as_blank_backslash :
    AllBlank "\r" ∧
      (∃ first mid second final whole, tokenizeLine .start "\"λ\\" = .ok (first, mid) ∧
        tokenizeLine mid "\" (* c" = .ok (second, final) ∧
        tokenizeLine .start ("\"λ\\" ++ "\r" ++ "\" (* c") = .ok (whole, final)) ∧
      (∃ short long final, tokenizeLine .start "\"λ\\" = .ok (short, final) ∧
        tokenizeLine .start ("\t" ++ "\"λ\\" ++ "\r") = .ok (long, final)) ∧
      ∃ whole final spans,
        tokenizeLine .start (joinLines "\"λ\\\n\" (* c") = .ok (whole, final) ∧
        (highlightDocument "\"λ\\\n\" (* c")[1]? = some spans ∧
        SameTags "\" (* c" spans 5 (joinLines "\"λ\\\n\" (* c") (Span.place 0 whole) := by
  have hreturn : AllBlank "\r" := by decide +kernel
  have htab : AllBlank "\t" := by decide +kernel
  obtain ⟨first, mid, second, final, whole, hfirst, hsecond, hwhole, -⟩ :=
    lineBreak_as_blank.1 .start "\"λ\\" "\r" "\" (* c" (by decide) hreturn (by decide)
  have haround :=
    lineBreak_as_blank.2.1 .start "\t" "\"λ\\" "\r" htab hreturn (by decide)
  obtain ⟨joined, last, hjoined, hlines⟩ :=
    lineBreak_as_blank.2.2 "\"λ\\\n\" (* c" (by decide)
  have hlinesOf : linesOf "\"λ\\\n\" (* c" = ["\"λ\\", "\" (* c"] := by decide +kernel
  obtain ⟨spans, hspans, htags⟩ := hlines 1 "\" (* c" (by rw [hlinesOf]; rfl)
  have hstart : lineStart (linesOf "\"λ\\\n\" (* c") 1 = 5 := by
    rw [hlinesOf]
    decide
  rw [hstart] at htags
  exact ⟨hreturn, ⟨first, mid, second, final, whole, hfirst, hsecond, hwhole⟩, haround,
    joined, last, spans, hjoined, hspans, htags⟩

end OCamlHighlight
