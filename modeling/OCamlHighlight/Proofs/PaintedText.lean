/-
# Painted text is the text

Painting goes from spans through joined spans and slices to escape sequences.  On each
of these ways a character could be lost or get the style of another.  Here a painted
text is read as a terminal reads it, and compared with the spans before any of this.

* `Shows` and `ShowsLines` say what is to be seen: every character in the style of the
  span that covers it, and line breaks without a style.
* `exists_runs` cuts a line into pieces as they are painted, and shows that these look
  like its spans.
* `faithful_paintLines` follows a highlighter through the lines of a document.
* `render_faithful` is about whole texts, and about painting without colors.
* `bufferedRender_append`: what a line has behind a full buffer is not painted, so that
  painting is not faithful to it (`render_faithful_cut`).
-/
import OCamlHighlight.Proofs.CutLines
import OCamlHighlight.Proofs.TerminalReading
import OCamlHighlight.Proofs.TextLines
import OCamlHighlight.Report.Painting

namespace OCamlHighlight.Painting

open Piece ScanState

/-! ## What is to be seen -/

/-- The characters of a line from an offset on, each in the style of a span that covers
all of it. -/
inductive Shows (theme : Theme) (spans : List Span) :
    Nat → List Char → List (Char × Option String) → Prop
  | nil (offset : Nat) : Shows theme spans offset [] []
  | cons {offset : Nat} {c : Char} {cs : List Char} {seen : List (Char × Option String)}
    (span : Span) (mem : span ∈ spans) (start_le : span.start ≤ offset)
    (le_stop : offset + c.utf8Size ≤ span.stop)
    (rest : Shows theme spans (offset + c.utf8Size) cs seen) :
    Shows theme spans offset (c :: cs) ((c, theme.style span.tag) :: seen)

/-- The characters of lines in the styles of their spans, and line breaks without a
style between them. -/
inductive ShowsLines (theme : Theme) :
    List String → List (List Span) → List (Char × Option String) → Prop
  | last {line : String} {spans : List Span} {seen : List (Char × Option String)}
    (shows : Shows theme spans 0 line.toList seen) : ShowsLines theme [line] [spans] seen
  | cons {line : String} {spans : List Span} {seen : List (Char × Option String)}
    {lines : List String} {below : List (List Span)} {seenBelow : List (Char × Option String)}
    (shows : Shows theme spans 0 line.toList seen)
    (rest : ShowsLines theme lines below seenBelow) :
    ShowsLines theme (line :: lines) (spans :: below) (seen ++ ('\n', none) :: seenBelow)

section Seen

variable {theme : Theme} {spans : List Span} {offset : Nat} {cs ds : List Char}
  {seen : List (Char × Option String)}

/-- What is to be seen of a line are its characters. -/
theorem Shows.map_fst (h : Shows theme spans offset cs seen) : seen.map Prod.fst = cs := by
  induction h with
  | nil => rfl
  | cons _ _ _ _ _ ih => exact congrArg (_ :: ·) ih

/-- **What is to be seen of lines** are their characters, with line breaks between. -/
theorem ShowsLines.map_fst {lines : List String} {below : List (List Span)}
    (h : ShowsLines theme lines below seen) :
    seen.map Prod.fst = ['\n'].intercalate (lines.map String.toList) := by
  induction h with
  | last shows =>
    rw [shows.map_fst, List.map_singleton, List.intercalate_singleton]
  | @cons line spans seen lines below seenBelow shows rest ih =>
    have hne : lines.map String.toList ≠ [] := by
      cases rest <;> exact List.cons_ne_nil _ _
    rw [List.map_append, List.map_cons, shows.map_fst, ih, List.map_cons,
      List.intercalate_cons_of_ne_nil hne, List.append_assoc]
    rfl

/-- The characters of a span are covered by it. -/
theorem Shows.prepend {span : Span} (mem : span ∈ spans) (hstart : span.start ≤ offset)
    (hstop : offset + String.utf8Len cs ≤ span.stop)
    (rest : Shows theme spans (offset + String.utf8Len cs) ds seen) :
    Shows theme spans offset (cs ++ ds) (cs.map (fun c => (c, theme.style span.tag)) ++ seen) := by
  induction cs generalizing offset with
  | nil => exact rest
  | cons c cs ih =>
    have hlen : String.utf8Len (c :: cs) = String.utf8Len cs + c.utf8Size := rfl
    rw [hlen] at hstop
    rw [hlen, Nat.add_comm (String.utf8Len cs), ← Nat.add_assoc] at rest
    exact .cons span mem hstart (by omega) (ih (by omega) (by omega) rest)

/-- **Pieces look like their spans.** -/
theorem shows_pieces (pieces : List Piece)
    (hmem : ∀ span ∈ Span.place offset (pieces.map token), span ∈ spans) :
    Shows theme spans offset (join pieces) (pieces.flatMap (marked (styleOf theme))) := by
  induction pieces generalizing offset with
  | nil => exact .nil offset
  | cons piece pieces ih =>
    rw [List.map_cons, Span.place_cons] at hmem
    obtain ⟨hfirst, hrest⟩ := List.forall_mem_cons.mp hmem
    exact (ih hrest).prepend hfirst (Nat.le_refl _) (Nat.le_refl _)

end Seen

/-! ## Lines -/

/-- The pieces of a line as they are painted: joined, not empty, and each with another
label than the one before it. -/
structure Runs (state : ScanState) (line : String) (runs : List Piece) : Prop where
  merge_eq : Span.merge (spansOf state line).1 = Span.place 0 (runs.map token)
  join_eq : join runs = line.toList
  ne_nil : ∀ run ∈ runs, run.text ≠ []
  isChain : runs.IsChain fun run next => run.tag.label ≠ next.tag.label
  shows : ∀ theme, Shows theme (spansOf state line).1 0 line.toList
    (runs.flatMap (marked (styleOf theme)))

/-- **A line is painted in runs.** -/
theorem exists_runs {state : ScanState} (hc : state.Consistent) (line : String) :
    ∃ runs, Runs state line runs := by
  obtain ⟨pieces, htokens, hjoin, hne⟩ := exists_pieces hc line
  have hspans : (spansOf state line).1 = Span.place 0 (pieces.map token) :=
    congrArg (Span.place 0) htokens
  refine ⟨merge pieces, ?_, ?_, text_ne_nil_of_mem_merge hne, isChain_merge pieces, ?_⟩
  · rw [hspans, merge_place]
  · rw [join_merge, hjoin]
  · intro theme
    rw [flatMap_marked_merge, ← hjoin, hspans]
    exact shows_pieces pieces fun _ hmem => hmem

section Line

variable {theme : Theme} {state : ScanState} {line : String} {runs : List Piece}

/-- A painted line is its painted runs, one after the other. -/
theorem Runs.paintLine_eq (h : Runs state line runs) (theme : Theme) :
    paintLine theme line (Span.merge (spansOf state line).1)
      = String.join (runs.map fun run => theme.paint run.tag (String.ofList run.text)) := by
  have htexts := Span.text_pieces h.join_eq ""
  rw [String.append_empty] at htexts
  have hpainted := congrArg (List.map fun slice => theme.paint slice.1 slice.2) htexts
  rw [List.map_map, List.map_map] at hpainted
  unfold paintLine
  rw [h.merge_eq]
  exact congrArg String.join hpainted

/-- **A painted line is read** run by run. -/
theorem Runs.itemsFrom_paintLine (h : Runs state line runs) (hl : Legible theme)
    (hc : '\x1b' ∉ line.toList) (back : List Char) :
    itemsFrom none ((paintLine theme line (Span.merge (spansOf state line).1)).toList ++ back)
      = runs.flatMap (painted theme) ++ itemsFrom none back := by
  rw [h.paintLine_eq, String.toList_join]
  rw [← h.join_eq] at hc
  clear h
  induction runs with
  | nil => rfl
  | cons run runs ih =>
    rw [join_cons, List.mem_append, not_or] at hc
    rw [List.map_cons, List.flatMap_cons, List.append_assoc, itemsFrom_paint hl hc.1, ih hc.2,
      List.flatMap_cons, List.append_assoc]

/-- The characters of runs are shown in their styles. -/
theorem shown_runs (hl : Legible theme) (runs : List Piece) (rest : List Item) :
    shown none (runs.flatMap (painted theme) ++ rest)
      = runs.flatMap (marked (styleOf theme)) ++ shown none rest := by
  induction runs with
  | nil => rfl
  | cons run runs ih =>
    rw [List.flatMap_cons, List.append_assoc, shown_painted hl, ih, List.flatMap_cons,
      List.append_assoc]

/-- Behind runs no style is active. -/
theorem styleAfter_runs (theme : Theme) (runs : List Piece) (rest : List Item) :
    styleAfter none (runs.flatMap (painted theme) ++ rest) = styleAfter none rest := by
  induction runs with
  | nil => rfl
  | cons run runs ih =>
    rw [List.flatMap_cons, List.append_assoc, styleAfter_painted, ih]

end Line

/-! ## Documents -/

/-- Items show lines as their spans are, end without a style, and begin none again that
they have just ended. -/
structure Faithful (theme : Theme) (lines : List String) (spans : List (List Span))
    (items : List Item) : Prop where
  shows : ShowsLines theme lines spans (shown none items)
  closed : styleAfter none items = none
  separated : Separated none items

/-- The last line. -/
theorem Runs.faithful {theme : Theme} {state : ScanState} {line : String} {runs : List Piece}
    (h : Runs state line runs) (hl : Legible theme) :
    Faithful theme [line] [(spansOf state line).1] (runs.flatMap (painted theme)) := by
  have hshown := shown_runs hl runs []
  have hclosed := styleAfter_runs theme runs []
  have hseparated : Separated none (runs.flatMap (painted theme) ++ []) :=
    separated_pieces hl h.isChain h.ne_nil trivial (by simp)
  rw [List.append_nil] at hshown hclosed hseparated
  refine ⟨.last ?_, hclosed, hseparated⟩
  rw [hshown, shown, List.append_nil]
  exact h.shows theme

/-- A line in front of others. -/
theorem Faithful.cons {theme : Theme} {state : ScanState} {line : String} {runs : List Piece}
    {lines : List String} {spans : List (List Span)} {items : List Item}
    (rest : Faithful theme lines spans items) (h : Runs state line runs) (hl : Legible theme) :
    Faithful theme (line :: lines) ((spansOf state line).1 :: spans)
      (runs.flatMap (painted theme) ++ .character '\n' :: items) where
  shows := by
    rw [shown_runs hl, shown]
    exact .cons (h.shows theme) rest.shows
  closed := by
    rw [styleAfter_runs]
    exact rest.closed
  separated := by
    refine separated_pieces hl h.isChain h.ne_nil ⟨fun heq => ?_, rest.separated⟩ (by simp)
    cases heq

theorem paintLines_cons (theme : Theme) (highlighter : Highlighter) (line : String)
    (lines : List String) :
    paintLines theme highlighter (line :: lines)
      = paintLine theme line (Span.merge (spansOf highlighter.state line).1)
        :: paintLines theme (highlighter.line line).2 lines := rfl

/-- **A painted document is read as its spans are.** -/
theorem faithful_paintLines {theme : Theme} (hl : Legible theme) (highlighter : Highlighter)
    (hc : highlighter.state.Consistent) {lines : List String} (hne : lines ≠ [])
    (hplain : ∀ line ∈ lines, '\x1b' ∉ line.toList) :
    Faithful theme lines (highlighter.lines lines)
      (items ("\n".intercalate (paintLines theme highlighter lines))) := by
  induction lines generalizing highlighter with
  | nil => exact absurd rfl hne
  | cons line lines ih =>
    obtain ⟨hline, hplain⟩ := List.forall_mem_cons.mp hplain
    obtain ⟨runs, hruns⟩ := exists_runs hc line
    have hread := hruns.itemsFrom_paintLine hl hline
    cases lines with
    | nil =>
      have hlast := hread []
      rw [List.append_nil, itemsFrom, List.append_nil] at hlast
      rw [paintLines_cons, paintLines, String.intercalate_singleton, items, hlast]
      exact hruns.faithful hl
    | cons next lines =>
      have hrest := ih (highlighter.line line).2 (hc.after line) (List.cons_ne_nil _ _) hplain
      rw [paintLines_cons, paintLines_cons, String.intercalate_cons_cons, ← paintLines_cons,
        items, String.toList_append, String.toList_append, List.append_assoc, hread]
      exact hrest.cons hruns hl

/-! ## Texts -/

/-- Without colors lines are painted as they are. -/
theorem paintLines_monochrome (highlighter : Highlighter) (hc : highlighter.state.Consistent)
    (lines : List String) : paintLines .monochrome highlighter lines = lines := by
  induction lines generalizing highlighter with
  | nil => rfl
  | cons line lines ih =>
    obtain ⟨runs, hruns⟩ := exists_runs hc line
    have hline : String.join (runs.map fun run => String.ofList run.text) = line := by
      rw [← String.toList_inj, String.toList_join, ← hruns.join_eq, List.flatMap_map]
      simp only [String.toList_ofList]
      rfl
    have hpaint : ∀ (tag : Tag) (text : String), Theme.monochrome.paint tag text = text := by
      intro tag text
      cases tag <;> rfl
    rw [paintLines_cons, hruns.paintLine_eq]
    simp only [hpaint]
    rw [hline]
    exact congrArg (line :: ·) (ih (highlighter.line line).2 (hc.after line))

/-- The spans of a line come one after the other. -/
theorem pairwise_place (start : Nat) (tokens : List Token) :
    (Span.place start tokens).Pairwise (fun span next => span.stop ≤ next.start) ∧
      ∀ span ∈ Span.place start tokens, start ≤ span.start := by
  induction tokens generalizing start with
  | nil => exact ⟨.nil, by simp⟩
  | cons token tokens ih =>
    obtain ⟨hpairwise, hle⟩ := ih (start + token.length)
    rw [Span.place_cons]
    refine ⟨List.pairwise_cons.mpr ⟨hle, hpairwise⟩,
      List.forall_mem_cons.mpr ⟨Nat.le_refl _, fun span hmem => ?_⟩⟩
    exact Nat.le_of_add_right_le (hle span hmem)

/-- So do those of the lines of a document. -/
theorem pairwise_lines (highlighter : Highlighter) (lines : List String) :
    ∀ spans ∈ highlighter.lines lines, spans.Pairwise fun span next => span.stop ≤ next.start := by
  induction lines generalizing highlighter with
  | nil => simp [Highlighter.lines]
  | cons line lines ih =>
    exact List.forall_mem_cons.mpr ⟨(pairwise_place 0 _).1, ih _⟩

/-! ## Through a buffer -/

/-- Through a buffer lines that fit are painted as well. -/
theorem bufferedLines_of_fits (theme : Theme) (highlighter : BufferedHighlighter)
    {lines : List String} (fits : ∀ line ∈ lines, line.utf8ByteSize < 2 ^ 32) :
    bufferedLines theme highlighter lines
      = .ok (paintLines theme ⟨highlighter.state, highlighter.linesSeen⟩ lines) := by
  induction lines generalizing highlighter with
  | nil => rfl
  | cons line lines ih =>
    obtain ⟨hline, hlines⟩ := List.forall_mem_cons.mp fits
    rw [bufferedLines, BufferedHighlighter.lineMerged, highlighter.line_of_fits hline, ok_bind]
    dsimp only
    rw [pure_bind, ih _ hlines]
    rfl

/-- A text whose lines fit is painted through a buffer. -/
theorem bufferedRender_of_fits (theme : Theme) {text : String}
    (fits : ∀ line ∈ linesOf text, line.utf8ByteSize < 2 ^ 32) :
    bufferedRender theme text = .ok (render theme text) := by
  unfold bufferedRender render
  rw [bufferedLines_of_fits theme .new fits]
  rfl

/-- Without colors a text whose lines fit is written as it is. -/
theorem bufferedRender_monochrome {text : String}
    (fits : ∀ line ∈ linesOf text, line.utf8ByteSize < 2 ^ 32) :
    bufferedRender .monochrome text = .ok text := by
  have hlines := paintLines_monochrome .new consistent_start (linesOf text)
  rw [bufferedRender_of_fits .monochrome fits, Except.ok.injEq]
  unfold render
  rw [← String.toList_inj, String.toList_intercalate]
  refine Eq.trans ?_ (intercalate_linesOf text)
  rw [show paintLines .monochrome .new (linesOf text) = _ from hlines]
  rfl

/-- **What a full buffer does not hold is not painted.** -/
theorem bufferedRender_append (theme : Theme) {line tail : String}
    (full : line.utf8ByteSize = LineBuffer.maxLength) (hline : '\n' ∉ line.toList)
    (htail : '\n' ∉ tail.toList) :
    bufferedRender theme (line ++ tail) = bufferedRender theme line := by
  obtain ⟨runs, hruns⟩ := exists_runs consistent_start line
  -- The spans are the same, and so are their texts.
  have hpaint : paintLine theme (line ++ tail) (Span.merge (spansOf .start line).1)
      = paintLine theme line (Span.merge (spansOf .start line).1) := by
    unfold paintLine
    rw [hruns.merge_eq]
    refine congrArg String.join (List.map_congr_left fun span hmem => ?_)
    rw [Span.text_append hruns.join_eq tail hmem]
  unfold bufferedRender
  rw [linesOf_line (newline_not_mem_append hline htail), linesOf_line hline]
  simp only [bufferedLines, BufferedHighlighter.lineMerged, BufferedHighlighter.line_append full,
    BufferedHighlighter.line_of_fits _ (fits_of_full full), ok_bind, pure_bind]
  rw [show BufferedHighlighter.new.state = .start from rfl, hpaint]

/-- **Painting is faithful.**  Let the lines of a text fit into a buffer.  Painted without
colors the text is written as it is.  Without escape characters, painted in the standard theme
and read by a terminal, it is shown character by character: line breaks without a style, and
every other character in the style of the one span that covers it before spans are joined.  At
the end no style is active, and none is begun again where it has just been ended. -/
theorem render_faithful (text : String)
    (fits : ∀ line ∈ linesOf text, line.utf8ByteSize < 2 ^ 32) :
    bufferedRender .monochrome text = .ok text ∧
    ('\x1b' ∉ text.toList → ∃ painted spans, bufferedRender .standard text = .ok painted ∧
      BufferedHighlighter.document text = .ok spans ∧
      ShowsLines .standard (linesOf text) spans (shown none (items painted)) ∧
      (∀ lineSpans ∈ spans, lineSpans.Pairwise fun span next => span.stop ≤ next.start) ∧
      (shown none (items painted)).map Prod.fst = text.toList ∧
      styleAfter none (items painted) = none ∧
      NeverReopens (items painted)) := by
  refine ⟨bufferedRender_monochrome fits, fun hplain => ⟨_, _,
    bufferedRender_of_fits .standard fits, BufferedHighlighter.new.lines_of_fits fits, ?_⟩⟩
  have hfaithful := faithful_paintLines legible_standard .new consistent_start
    (linesOf_ne_nil text) fun line hline hc => hplain (mem_of_mem_linesOf hline hc)
  refine ⟨hfaithful.shows, pairwise_lines _ _, ?_, hfaithful.closed,
    hfaithful.separated.neverReopens⟩
  rw [← intercalate_linesOf text]
  exact hfaithful.shows.map_fst

/-- A keyword, a character of two bytes and a string that is left open; and a text that
has an escape character already. -/
theorem render_faithful_keyword :
    (∀ line ∈ linesOf "if λ\n\"a", line.utf8ByteSize < 2 ^ 32) ∧ '\x1b' ∉ "if λ\n\"a".toList ∧
      (∃ painted spans, bufferedRender .standard "if λ\n\"a" = .ok painted ∧
        BufferedHighlighter.document "if λ\n\"a" = .ok spans ∧
        ShowsLines .standard ["if λ", "\"a"] spans
          [('i', some "\x1b[1;35m"), ('f', some "\x1b[1;35m"), (' ', none), ('λ', none),
            ('\n', none), ('"', some "\x1b[31m"), ('a', some "\x1b[31m")] ∧
        NeverReopens (items painted)) ∧
      bufferedRender .monochrome "\x1b[0m if" = .ok "\x1b[0m if" := by
  have hlines : linesOf "if λ\n\"a" = ["if λ", "\"a"] := by decide +kernel
  have hescaped : linesOf "\x1b[0m if" = ["\x1b[0m if"] := by decide +kernel
  have hfits : ∀ line ∈ linesOf "if λ\n\"a", line.utf8ByteSize < 2 ^ 32 := by
    rw [hlines]
    decide
  have hplain : '\x1b' ∉ "if λ\n\"a".toList := by decide
  obtain ⟨painted, spans, hpainted, hspans, hshows, -, -, -, hnever⟩ :=
    (render_faithful "if λ\n\"a" hfits).2 hplain
  have hexplicit : bufferedRender .standard "if λ\n\"a"
      = .ok "\x1b[1;35mif\x1b[0m λ\n\x1b[31m\"a\x1b[0m" := by
    decide +kernel
  obtain rfl := Except.ok.inj (hpainted.symm.trans hexplicit)
  have hshown : shown none (items "\x1b[1;35mif\x1b[0m λ\n\x1b[31m\"a\x1b[0m") =
      [('i', some "\x1b[1;35m"), ('f', some "\x1b[1;35m"), (' ', none), ('λ', none),
        ('\n', none), ('"', some "\x1b[31m"), ('a', some "\x1b[31m")] := by
    decide +kernel
  rw [hshown, hlines] at hshows
  exact ⟨hfits, hplain, ⟨_, spans, hpainted, hspans, hshows, hnever⟩,
    (render_faithful "\x1b[0m if" (by rw [hescaped]; decide)).1⟩

/-- **A tail that is lost.**  The last blank of a line that is too long by one byte is not
written, also without colors. -/
theorem render_faithful_cut :
    bufferedRender .monochrome (blanks 4294967296) = .ok (blanks 4294967295) ∧
      blanks 4294967295 ≠ blanks 4294967296 := by
  have full : (blanks 4294967295).utf8ByteSize = LineBuffer.maxLength := utf8ByteSize_blanks _
  have hlong : blanks 4294967296 = blanks 4294967295 ++ " " := blanks_succ _
  refine ⟨?_, fun heq => absurd (blanks_inj heq) (by decide)⟩
  rw [hlong, bufferedRender_append .monochrome full (newline_not_mem_blanks _) (by decide)]
  exact bufferedRender_monochrome (fits_blanks rfl)

end OCamlHighlight.Painting
