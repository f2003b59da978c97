/-
# What a token dump tells of its text

The entries of a dump with whitespace have all the characters of a text in order, each
with the number of its line.  An empty line has no entry, and is known from the numbers of
those behind it; therefore line feeds at the end of a text are lost, and nothing else is.

* `lineText_entriesOf`: the entries with a number make up the line with this number.
* `getLast?_entriesOf`: the last state that is shown up to a line is the one behind it.
* `dump_tells_text` is about the dumps as texts.
* `bufferedRender_append`: a dump tells nothing of what a line has behind a full buffer
  (`dump_tells_text_cut`).
-/
import OCamlHighlight.Proofs.BufferedStates
import OCamlHighlight.Proofs.CutLines
import OCamlHighlight.Proofs.DumpReading

namespace OCamlHighlight.TokenDump

open Piece ScanState
open BufferedHighlighter (Passage)

/-! ## Numbers -/

/-- The entries of a line have its number. -/
theorem number_of_mem_entriesOfLine {whitespace : Bool} {number : Nat} {before : ScanState}
    {line : String} {e : Entry} (he : e ∈ entriesOfLine whitespace number before line) :
    e.number = number := by
  rw [entriesOfLine, List.mem_append] at he
  rcases he with he | he
  · obtain ⟨span, -, rfl⟩ := List.mem_map.mp he
    rfl
  · split at he
    · rw [List.mem_singleton.mp he]
      rfl
    · cases he

/-- The entries of lines have the numbers from the first one on. -/
theorem le_number_of_mem_entriesOf {whitespace : Bool} {number : Nat} {state : ScanState}
    {lines : List String} {e : Entry} (he : e ∈ entriesOf whitespace number state lines) :
    number ≤ e.number := by
  induction lines generalizing number state with
  | nil => cases he
  | cons line lines ih =>
    rw [entriesOf, List.mem_append] at he
    rcases he with he | he
    · exact (number_of_mem_entriesOfLine he).ge
    · exact Nat.le_of_succ_le (ih he)

/-! ## Lines -/

/-- What an entry tells of the line with a number. -/
def Entry.textAt (n : Nat) : Entry → List Char
  | token number _ text => if number = n then text.toList else []
  | state _ _ _ => []

/-- What entries tell of the line with a number. -/
def lineText (es : List Entry) (n : Nat) : List Char := es.flatMap (Entry.textAt n)

theorem lineText_append (es others : List Entry) (n : Nat) :
    lineText (es ++ others) n = lineText es n ++ lineText others n := List.flatMap_append

/-- **The tokens of a line** have all its characters. -/
theorem flatMap_text {state : ScanState} (hc : state.Consistent) (line : String) :
    (spansOf state line).1.flatMap (fun span => (span.text line).toList) = line.toList := by
  obtain ⟨pieces, htokens, hjoin, -⟩ := exists_pieces hc line
  have htexts := Span.text_pieces hjoin ""
  rw [String.append_empty] at htexts
  have hchars := congrArg (List.flatMap fun slice => slice.2.toList) htexts
  rw [List.flatMap_map, List.flatMap_map] at hchars
  have hspans : (spansOf state line).1 = Span.place 0 (pieces.map Piece.token) :=
    congrArg (Span.place 0) htokens
  rw [hspans, ← hjoin]
  refine hchars.trans ?_
  simp only [String.toList_ofList]
  rfl

/-- The entries of a line tell the line, and nothing of the others. -/
theorem lineText_entriesOfLine {before : ScanState} (hc : before.Consistent) (number n : Nat)
    (line : String) :
    lineText (entriesOfLine true number before line) n
      = if number = n then line.toList else [] := by
  have hstate : ∀ shows : Bool, lineText (if shows then
      [.state number (before.after line).mode (before.after line).depth.toNat] else []) n = [] := by
    intro shows
    cases shows <;> rfl
  rw [entriesOfLine, lineText_append, hstate, List.append_nil]
  simp only [Bool.true_or, List.filter_true]
  rw [lineText, List.flatMap_map]
  by_cases hn : number = n
  · rw [if_pos hn, ← flatMap_text hc line]
    simp only [Entry.textAt, if_pos hn]
  · rw [if_neg hn]
    simp only [Entry.textAt, if_neg hn]
    exact List.flatMap_eq_nil_iff.mpr fun _ _ => rfl

/-- Entries with other numbers tell nothing of a line. -/
theorem lineText_eq_nil {es : List Entry} {n : Nat} (h : ∀ e ∈ es, e.number ≠ n) :
    lineText es n = [] := by
  rw [lineText, List.flatMap_eq_nil_iff]
  intro e he
  cases e with
  | token number span text => exact if_neg (h _ he)
  | state number mode depth => rfl

/-- **The entries with a number** tell the line with this number. -/
theorem lineText_entriesOf {state : ScanState} (hc : state.Consistent) (number : Nat)
    (lines : List String) (n : Nat) :
    lineText (entriesOf true number state lines) (number + n) = (lines.getD n "").toList := by
  induction lines generalizing number state n with
  | nil => rfl
  | cons line lines ih =>
    rw [entriesOf, lineText_append, lineText_entriesOfLine hc]
    cases n with
    | zero =>
      rw [Nat.add_zero, if_pos rfl, lineText_eq_nil, List.append_nil]
      · rfl
      · intro e he
        exact (Nat.lt_of_succ_le (le_number_of_mem_entriesOf he)).ne'
    | succ n =>
      have hrest := ih (hc.after line) (number + 1) n
      rw [Nat.add_right_comm] at hrest
      rw [if_neg (by omega), List.nil_append]
      exact hrest

/-! ## States -/

/-- The mode and the depth of a state. -/
def shown (state : ScanState) : Mode × Nat := (state.mode, state.depth.toNat)

/-- The state that an entry shows, if its line is among the first `i`. -/
def Entry.stateUpTo (i : Nat) : Entry → Option (Mode × Nat)
  | token _ _ _ => none
  | state number mode depth => if number ≤ i then some (mode, depth) else none

/-- The last state that entries show up to line `i`, and otherwise that at the start of a
document. -/
def stateAt (es : List Entry) (i : Nat) : Mode × Nat :=
  (es.filterMap (Entry.stateUpTo i)).getLast?.getD (.base, 0)

/-- A line has an entry for the state behind it if this is another one. -/
theorem showsState_eq_false_iff (before after : ScanState) :
    showsState before after = false ↔ shown after = shown before := by
  rw [showsState, Bool.or_eq_false_iff, bne_eq_false_iff_eq, bne_eq_false_iff_eq, shown, shown,
    Prod.mk.injEq, UInt32.toNat_inj]

/-- The state behind a line is shown, or it has not changed. -/
theorem getLast?_entriesOfLine (whitespace : Bool) {number i : Nat} (hi : number ≤ i)
    (before : ScanState) (line : String) :
    ((entriesOfLine whitespace number before line).filterMap
        (Entry.stateUpTo i)).getLast?.getD (shown before) = shown (before.after line) := by
  have htokens : ∀ spans : List Span,
      (spans.map fun span => Entry.token number span (span.text line)).filterMap
        (Entry.stateUpTo i) = [] := by
    intro spans
    rw [List.filterMap_map, List.filterMap_eq_nil_iff]
    exact fun _ _ => rfl
  rw [entriesOfLine, List.filterMap_append, htokens, List.nil_append]
  cases hshows : showsState before (before.after line) with
  | false => exact ((showsState_eq_false_iff _ _).mp hshows).symm
  | true =>
    show ([if number ≤ i then some (shown (before.after line)) else none].filterMap
      id).getLast?.getD (shown before) = _
    rw [if_pos hi]
    rfl

/-- **The last state that is shown** is the one behind the line. -/
theorem getLast?_entriesOf (whitespace : Bool) (number : Nat) (state : ScanState)
    (lines : List String) (i : Nat) :
    ((entriesOf whitespace number state lines).filterMap
        (Entry.stateUpTo i)).getLast?.getD (shown state)
      = shown (state.afterAll (lines.take (i + 1 - number))) := by
  induction lines generalizing number state with
  | nil =>
    rw [List.take_nil]
    rfl
  | cons line lines ih =>
    by_cases hi : number ≤ i
    · have hrest := ih (number + 1) (state.after line)
      rw [Nat.add_sub_add_right] at hrest
      rw [entriesOf, List.filterMap_append, List.getLast?_append, Option.getD_or,
        getLast?_entriesOfLine whitespace hi, hrest, Nat.succ_sub hi, List.take_succ_cons,
        afterAll_cons]
    · have hnone : (entriesOf whitespace number state (line :: lines)).filterMap
          (Entry.stateUpTo i) = [] := by
        rw [List.filterMap_eq_nil_iff]
        intro e he
        have hle := le_number_of_mem_entriesOf he
        cases e with
        | token number span text => rfl
        | state number mode depth => exact if_neg fun h => hi (Nat.le_trans hle h)
      rw [hnone, Nat.sub_eq_zero_of_le (Nat.lt_of_not_le hi)]
      rfl

/-! ## Texts -/

/-- An empty line has no entry, and leaves the state as it is. -/
theorem entriesOf_empty_cons (whitespace : Bool) (number : Nat) (state : ScanState)
    (lines : List String) :
    entriesOf whitespace number state ("" :: lines)
      = entriesOf whitespace (number + 1) state lines := by
  have hafter : state.after "" = state := congrArg Prod.snd (tokens_nil state)
  have hspans : (spansOf state "").1 = [] := congrArg (Span.place 0 ∘ Prod.fst) (tokens_nil state)
  have hshows : showsState state state = false := (showsState_eq_false_iff _ _).mpr rfl
  rw [entriesOf, entriesOfLine, hafter, hspans, hshows]
  rfl

/-- Empty lines behind the others have no entries. -/
theorem entriesOf_append_replicate (whitespace : Bool) (number : Nat) (state : ScanState)
    (lines : List String) (k : Nat) :
    entriesOf whitespace number state (lines ++ List.replicate k "")
      = entriesOf whitespace number state lines := by
  induction lines generalizing number state with
  | nil =>
    rw [List.nil_append]
    induction k generalizing number with
    | zero => rfl
    | succ k ih => rw [List.replicate_succ, entriesOf_empty_cons, ih, entriesOf, entriesOf]
  | cons line lines ih => rw [List.cons_append, entriesOf, entriesOf, ih]

/-- A dump does not show the line feeds at the end of its text. -/
theorem render_rdropWhile (whitespace : Bool) (text : String) :
    render whitespace (String.ofList (text.toList.rdropWhile (· == '\n')))
      = render whitespace text := by
  obtain ⟨k, hk⟩ := exists_replicate text
  have hlines := linesOf_append_replicate (text.toList.rdropWhile (· == '\n')) k
  rw [← hk, String.ofList_toList] at hlines
  rw [render_eq, render_eq, hlines, entriesOf_append_replicate]

/-- Through a buffer lines that fit have their entries as well. -/
theorem bufferedEntries_of_fits (whitespace : Bool) (number : Nat)
    (highlighter : BufferedHighlighter) {lines : List String}
    (fits : ∀ line ∈ lines, line.utf8ByteSize < 2 ^ 32) :
    bufferedEntries whitespace number highlighter lines
      = .ok (entries whitespace number highlighter.state lines) := by
  induction lines generalizing number highlighter with
  | nil => rfl
  | cons line lines ih =>
    obtain ⟨hline, hlines⟩ := List.forall_mem_cons.mp fits
    rw [bufferedEntries, highlighter.line_of_fits hline, ok_bind]
    dsimp only
    rw [ih _ _ hlines]
    rfl

/-- A text whose lines fit is dumped through a buffer. -/
theorem bufferedRender_of_fits (whitespace : Bool) {text : String}
    (fits : ∀ line ∈ linesOf text, line.utf8ByteSize < 2 ^ 32) :
    bufferedRender whitespace text = .ok (render whitespace text) := by
  unfold bufferedRender render
  rw [bufferedEntries_of_fits whitespace 1 .new fits]
  rfl

/-- Texts with the same dump are the same up to the line feeds at their ends. -/
theorem render_eq_iff (text other : String) : render true text = render true other ↔
    text.toList.rdropWhile (· == '\n') = other.toList.rdropWhile (· == '\n') := by
  refine ⟨fun h => ?_, fun h => ?_⟩
  · -- The entries with a number tell the same line of both texts.
    have hentries := congrArg readDump h
    rw [readDump_render, readDump_render] at hentries
    refine (rdropWhile_eq_iff_lines text other).mpr fun n => ?_
    have hline := lineText_entriesOf consistent_start 1 (linesOf text) n
    rw [hentries, lineText_entriesOf consistent_start, String.toList_inj] at hline
    exact hline.symm
  · rw [← render_rdropWhile, h, render_rdropWhile]

/-- **What a full buffer does not hold is not dumped.** -/
theorem bufferedRender_append (whitespace : Bool) {line tail : String}
    (full : line.utf8ByteSize = LineBuffer.maxLength) (hline : '\n' ∉ line.toList)
    (htail : '\n' ∉ tail.toList) :
    bufferedRender whitespace (line ++ tail) = bufferedRender whitespace line := by
  obtain ⟨pieces, htokens, hjoin, -⟩ := exists_pieces consistent_start line
  have hspans : (spansOf .start line).1 = Span.place 0 (pieces.map Piece.token) :=
    congrArg (Span.place 0) htokens
  -- The spans are the same, and so are their texts.
  have hentries : ∀ after, spanEntries whitespace 1 .start after (line ++ tail)
      (spansOf .start line).1 = spanEntries whitespace 1 .start after line
        (spansOf .start line).1 := by
    intro after
    unfold spanEntries
    rw [hspans]
    refine congrArg (· ++ _) (List.map_congr_left fun span hmem => ?_)
    rw [spanEntry, spanEntry, Span.text_append hjoin tail (List.mem_of_mem_filter hmem)]
  unfold bufferedRender
  rw [linesOf_line (newline_not_mem_append hline htail), linesOf_line hline]
  simp only [bufferedEntries, BufferedHighlighter.line_append full,
    BufferedHighlighter.line_of_fits _ (fits_of_full full), ok_bind]
  rw [show BufferedHighlighter.new.state = .start from rfl, hentries]

/-- **A dump tells its text**, as long as the lines fit into a buffer.  Two texts have the same
dump with whitespace exactly if they are the same up to the line feeds at their ends.  From a
dump, with whitespace or without, the mode and the depth behind any line are read: they are
those of the last entry that shows a state up to this line, and of the start of a document if
there is none. -/
theorem dump_tells_text :
    (∀ text other : String, (∀ line ∈ linesOf text, line.utf8ByteSize < 2 ^ 32) →
      (∀ line ∈ linesOf other, line.utf8ByteSize < 2 ^ 32) →
      ∃ dump dump', bufferedRender true text = .ok dump ∧ bufferedRender true other = .ok dump' ∧
        (dump = dump' ↔
          text.toList.rdropWhile (· == '\n') = other.toList.rdropWhile (· == '\n'))) ∧
    ∀ (whitespace : Bool) (text : String),
      (∀ line ∈ linesOf text, line.utf8ByteSize < 2 ^ 32) →
      ∃ dump, bufferedRender whitespace text = .ok dump ∧
        ∀ i, ∃ state, Passage.state ⟨.start, (linesOf text).take i⟩ = .ok state ∧
          stateAt (readDump dump) i = shown state := by
  refine ⟨fun text other fits fits' => ⟨_, _, bufferedRender_of_fits true fits,
    bufferedRender_of_fits true fits', render_eq_iff text other⟩, fun whitespace text fits =>
    ⟨_, bufferedRender_of_fits whitespace fits, fun i => ⟨_, Passage.state_of_fits fun line hmem =>
      fits line (List.mem_of_mem_take hmem), ?_⟩⟩⟩
  rw [readDump_render]
  exact getLast?_entriesOf whitespace 1 .start (linesOf text) i

/-- Two texts with other line feeds at their ends, and a comment that is left open behind
an empty line. -/
theorem dump_tells_text_comment :
    (∀ line ∈ linesOf "(* λ\n", line.utf8ByteSize < 2 ^ 32) ∧
      (∀ line ∈ linesOf "(* λ\n\n", line.utf8ByteSize < 2 ^ 32) ∧
      (∀ line ∈ linesOf "\n(* λ", line.utf8ByteSize < 2 ^ 32) ∧
      (∃ dump, bufferedRender true "(* λ\n" = .ok dump ∧
        bufferedRender true "(* λ\n\n" = .ok dump ∧
        ∃ dump', bufferedRender true "\n(* λ" = .ok dump' ∧ dump ≠ dump') ∧
      ∃ dump, bufferedRender false "\n(* λ" = .ok dump ∧
        stateAt (readDump dump) 2 = (.comment, 1) := by
  have hfirst : linesOf "(* λ\n" = ["(* λ", ""] := by decide +kernel
  have hsecond : linesOf "(* λ\n\n" = ["(* λ", "", ""] := by decide +kernel
  have hthird : linesOf "\n(* λ" = ["", "(* λ"] := by decide +kernel
  have hfits : ∀ line ∈ linesOf "(* λ\n", line.utf8ByteSize < 2 ^ 32 := by
    rw [hfirst]
    decide
  have hfits' : ∀ line ∈ linesOf "(* λ\n\n", line.utf8ByteSize < 2 ^ 32 := by
    rw [hsecond]
    decide
  have hfits'' : ∀ line ∈ linesOf "\n(* λ", line.utf8ByteSize < 2 ^ 32 := by
    rw [hthird]
    decide
  obtain ⟨dump, dump', hdump, hdump', hsame⟩ := dump_tells_text.1 _ _ hfits hfits'
  obtain ⟨_, other, hagain, hother, hdiffers⟩ := dump_tells_text.1 _ _ hfits hfits''
  obtain rfl : dump = dump' := hsame.mpr (by decide)
  obtain rfl := Except.ok.inj (hdump.symm.trans hagain)
  obtain ⟨bare, hbare, hstates⟩ := dump_tells_text.2 false "\n(* λ" hfits''
  obtain ⟨state, hstate, hshown⟩ := hstates 2
  refine ⟨hfits, hfits', hfits'', ⟨dump, hdump, hdump', other, hother,
    fun h => absurd (hdiffers.mp h) (by decide)⟩, bare, hbare, hshown.trans ?_⟩
  have hcomment : Passage.state ⟨.start, ["", "(* λ"]⟩ = .ok ⟨.comment, 1, true⟩ := by
    decide +kernel
  rw [hthird] at hstate
  obtain rfl := Except.ok.inj (hstate.symm.trans hcomment)
  rfl

/-- **A tail that is lost.**  A line of blanks and one that is longer than a buffer, by one
blank, have the same dump. -/
theorem dump_tells_text_cut :
    (∃ dump, bufferedRender true (blanks 4294967295) = .ok dump ∧
      bufferedRender true (blanks 4294967296) = .ok dump) ∧
    (blanks 4294967295).toList.rdropWhile (· == '\n')
      ≠ (blanks 4294967296).toList.rdropWhile (· == '\n') := by
  have full : (blanks 4294967295).utf8ByteSize = LineBuffer.maxLength := utf8ByteSize_blanks _
  have hlong : blanks 4294967296 = blanks 4294967295 ++ " " := blanks_succ _
  have hself : ∀ n, (blanks n).toList.rdropWhile (· == '\n') = (blanks n).toList := by
    intro n
    refine List.rdropWhile_eq_self_iff.mpr fun hne heq => newline_not_mem_blanks n ?_
    rw [← eq_of_beq heq]
    exact List.getLast_mem hne
  refine ⟨⟨_, bufferedRender_of_fits true (fits_blanks rfl), ?_⟩, fun heq => ?_⟩
  · rw [hlong, bufferedRender_append true full (newline_not_mem_blanks _) (by decide)]
    exact bufferedRender_of_fits true (fits_blanks rfl)
  · rw [hself, hself, String.toList_inj] at heq
    exact absurd (blanks_inj heq) (by decide)

end OCamlHighlight.TokenDump
