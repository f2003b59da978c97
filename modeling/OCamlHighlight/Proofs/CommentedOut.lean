/-
# Text that is commented out

A text that is put between the delimiters of a comment is one comment again if its own pairs
balance.  Otherwise it closes the comment within, or leaves it open at the end.

* `OneComment` says of the spans of a line that they are blanks and one comment, and
  `IsOneComment` says of the lines of a text that all of them are, and the last one ends the
  comment.
* `ScansAs` compares a line with a scan of the inside of a comment: so is a line that is
  entered in a comment (`scansAs_entered`), and one that opens a comment, behind its
  delimiter (`scansAs_opening`).
* `isOneComment_iff` goes through the lines of a text, with a counter that goes through its
  bytes.
-/
import OCamlHighlight.Language
import OCamlHighlight.Proofs.DriverAgreement
import OCamlHighlight.Proofs.PairBalance
import OCamlHighlight.Proofs.TextLines

namespace OCamlHighlight

open Byte Extent PairCounter BufferedHighlighter

/-! ## Lines of a comment -/

/-- The spans of a line are one of whitespace at its start, or none, and behind it one of a
comment that reaches the end of the line, or none. -/
def OneComment (line : String) (spans : List Span) : Prop :=
  ∃ blanks comment, spans = blanks ++ comment ∧
    (blanks = [] ∨ ∃ n, blanks = [⟨0, n, .whitespace⟩]) ∧
    (comment = [] ∨ ∃ n, comment = [⟨n, line.utf8ByteSize, .comment⟩])

/-- A comment does not end within the line. -/
theorem OneComment.stop_eq {line : String} {spans : List Span} (h : OneComment line spans)
    {span : Span} (hmem : span ∈ spans) (htag : span.tag = .comment) :
    span.stop = line.utf8ByteSize := by
  obtain ⟨blanks, comment, rfl, hblanks, hcomment⟩ := h
  rcases List.mem_append.mp hmem with hmem | hmem
  · rcases hblanks with rfl | ⟨n, rfl⟩
    · cases hmem
    · rw [List.mem_singleton.mp hmem] at htag
      cases htag
  · rcases hcomment with rfl | ⟨n, rfl⟩
    · cases hmem
    · rw [List.mem_singleton.mp hmem]

section Step

variable {state last : ScanState} {bs : List Byte} {n : Nat}
  (hstep : step? state bs = some (Step.take .comment n last bs))

include hstep

/-- A line whose first token is a comment. -/
theorem tokens_of_comment :
    tokens state bs
      = (⟨.comment, n⟩ :: (tokens last (bs.drop n)).1, (tokens last (bs.drop n)).2) :=
  tokens_of_step? hstep

/-- A comment that takes all bytes leaves the line in its own state. -/
theorem tokens_of_whole_comment (hall : n = bs.length) :
    tokens state bs = ([⟨.comment, bs.length⟩], last) := by
  rw [tokens_of_comment hstep, hall, List.drop_length, tokens_nil]

/-- Behind the blanks of a line there is one comment if the first token there takes all
bytes. -/
theorem oneComment_iff_of_step? {line : String} {k : Nat} {blanks : List Span}
    (hblanks : blanks = [] ∨ ∃ n, blanks = [⟨0, n, .whitespace⟩])
    (hsize : k + bs.length = line.utf8ByteSize) :
    OneComment line (blanks ++ Span.place k (tokens state bs).1) ↔ n = bs.length := by
  constructor
  · intro h
    have hmem : (⟨k, k + n, .comment⟩ : Span) ∈ blanks ++ Span.place k (tokens state bs).1 := by
      rw [tokens_of_comment hstep, Span.place_cons]
      exact List.mem_append_right _ List.mem_cons_self
    have hstop : k + n = line.utf8ByteSize := h.stop_eq hmem rfl
    omega
  · intro hall
    rw [tokens_of_whole_comment hstep hall, Span.place_cons, Span.place_nil, hsize]
    exact ⟨blanks, _, rfl, hblanks, Or.inr ⟨k, rfl⟩⟩

end Step

/-- A comment goes on over blanks. -/
theorem commentFrom_blanks (n : Nat) {depth : Depth} (hd : depth ≠ 0) (bs : List Byte) :
    commentFrom n depth bs
      = commentFrom (n + run isBlank bs) depth (bs.drop (run isBlank bs)) := by
  induction bs generalizing n with
  | nil => rfl
  | cons b bs ih =>
    rw [run_cons]
    by_cases hb : isBlank b = true
    · rw [if_pos hb, commentFrom_other _ hd (fun h => ne_of_isBlank hb rfl h.1)
        (fun h => ne_of_isBlank hb rfl h.1), ih, Nat.add_comm 1, List.drop_succ_cons,
        Nat.add_assoc, Nat.add_comm 1]
    · rw [if_neg hb]
      rfl

/-! ## Lines that scan like the inside of a comment -/

/-- A line that is entered in `state` scans like `body` at the given depth inside of a
comment: it is one comment if the scan of `body` takes all bytes, and then it is left in a
comment of the same depth, or in code if this is zero. -/
structure ScansAs (state : ScanState) (line : String) (depth : Depth) (body : List Byte) :
    Prop where
  shape : OneComment line (spansOf state line).1 ↔ (commentFrom 0 depth body).1 = body.length
  behind : (commentFrom 0 depth body).1 = body.length →
    state.after line = ScanState.withDepth ⟨.comment, depth, true⟩ (commentFrom 0 depth body).2

/-- Behind the blanks of a line that is entered in a comment there is nothing, or a comment. -/
theorem step?_behind_blanks {state : ScanState} (h : state.mode = .comment) (bs : List Byte) :
    bs.drop (run isBlank bs) = [] ∨
      step? state (bs.drop (run isBlank bs))
        = some (Step.comment state 0 (bs.drop (run isBlank bs))) := by
  induction bs with
  | nil => exact Or.inl rfl
  | cons b bs ih =>
    rw [run_cons]
    by_cases hb : isBlank b = true
    · rw [if_pos hb, Nat.add_comm 1, List.drop_succ_cons]
      exact ih
    · rw [if_neg hb, List.drop_zero]
      unfold step?
      dsimp only
      rw [if_neg hb, h]
      exact Or.inr rfl

/-- The blanks at the start of a line are a span of their own, if there are any. -/
theorem place_blanks (state : ScanState) (bs : List Byte) :
    ∃ blanks : List Span, (blanks = [] ∨ ∃ n, blanks = [⟨0, n, .whitespace⟩]) ∧
      Span.place 0 (tokens state bs).1 = blanks ++
        Span.place (run isBlank bs) (tokens state (bs.drop (run isBlank bs))).1 ∧
      (tokens state bs).2 = (tokens state (bs.drop (run isBlank bs))).2 := by
  cases bs with
  | nil => exact ⟨[], Or.inl rfl, rfl, rfl⟩
  | cons b bs =>
    by_cases hb : isBlank b = true
    · refine ⟨[⟨0, run isBlank (b :: bs), .whitespace⟩], Or.inr ⟨_, rfl⟩, ?_⟩
      rw [tokens_of_step? (step?_of_isBlank state bs hb), Span.place_cons]
      dsimp only [Step.take]
      rw [Nat.zero_add]
      exact ⟨rfl, rfl⟩
    · rw [run_cons, if_neg hb]
      exact ⟨[], Or.inl rfl, rfl, rfl⟩

/-- **A line that is entered in a comment** scans like its bytes. -/
theorem scansAs_entered {depth : Depth} (hd : depth ≠ 0) (line : String) :
    ScansAs ⟨.comment, depth, true⟩ line depth (bytes line) := by
  obtain ⟨blanks, hblanks, hplace, hfinal⟩ := place_blanks ⟨.comment, depth, true⟩ (bytes line)
  have hle := run_le isBlank (bytes line)
  have hdrop : run isBlank (bytes line) + ((bytes line).drop (run isBlank (bytes line))).length
      = line.utf8ByteSize := by
    rw [List.length_drop, ← length_bytes]
    omega
  have hscan := commentFrom_blanks 0 hd (bytes line)
  rw [Nat.zero_add, ← Nat.add_zero (run isBlank (bytes line)), commentFrom_add,
    Nat.add_zero] at hscan
  have hspans : (spansOf ⟨.comment, depth, true⟩ line).1 = _ := hplace
  have hafter : ScanState.after ⟨.comment, depth, true⟩ line = _ := hfinal
  rcases @step?_behind_blanks ⟨.comment, depth, true⟩ rfl (bytes line) with hnil | hstep
  · -- There are blanks only.
    rw [hnil] at hscan hspans hafter hdrop
    rw [tokens_nil, Span.place_nil] at hspans
    rw [tokens_nil] at hafter
    have hall : (commentFrom 0 depth (bytes line)).1 = (bytes line).length := by
      rw [hscan, length_bytes]
      exact hdrop
    refine ⟨iff_of_true ?_ hall, fun _ => ?_⟩
    · rw [hspans]
      exact ⟨blanks, [], rfl, hblanks, Or.inl rfl⟩
    · rw [hafter, hscan]
      exact (ScanState.withDepth_self ⟨.comment, depth, true⟩ hd).symm
  · have hshape := oneComment_iff_of_step? hstep hblanks hdrop
    refine ⟨?_, fun hall => ?_⟩
    · rw [hspans, hshape, hscan, length_bytes, ← hdrop]
      exact Nat.add_left_cancel_iff.symm
    · rw [hscan, length_bytes, ← hdrop] at hall
      rw [hafter, tokens_of_whole_comment hstep (Nat.add_left_cancel hall), hscan]
      rfl

/-- The opening delimiter and a blank are three bytes. -/
theorem length_bytes_opening (text : String) :
    (bytes ("(* " ++ text)).length = 3 + (bytes text).length := by
  rw [bytes_append, List.length_append]
  rfl

/-- A line that begins with the opening delimiter and a blank has a comment as its first
token. -/
theorem step?_opening (text : String) :
    step? .start (bytes ("(* " ++ text))
      = some (Step.take .comment (3 + (commentFrom 0 1 (bytes text)).1)
          (ScanState.withDepth ⟨.comment, 1, true⟩ (commentFrom 0 1 (bytes text)).2)
          (bytes ("(* " ++ text))) := by
  have hscan : commentFrom 2 1 (0x20 :: bytes text)
      = (3 + (commentFrom 0 1 (bytes text)).1, (commentFrom 0 1 (bytes text)).2) := by
    rw [commentFrom_other 2 (by decide) (by rintro ⟨h, -⟩; cases h) (by rintro ⟨h, -⟩; cases h)]
    exact commentFrom_add 3 0 1 (bytes text)
  have hbytes : bytes ("(* " ++ text) = openParen :: star :: 0x20 :: bytes text :=
    bytes_append "(* " text
  rw [hbytes]
  show some (Step.take .comment (commentFrom 2 1 (0x20 :: bytes text)).1
    (ScanState.withDepth ⟨.comment, 1, true⟩ (commentFrom 2 1 (0x20 :: bytes text)).2) _) = _
  rw [hscan]

/-- **A line that opens a comment** scans like what is behind the delimiter and a blank. -/
theorem scansAs_opening (text : String) : ScansAs .start ("(* " ++ text) 1 (bytes text) := by
  have hstep := step?_opening text
  have hlength := length_bytes_opening text
  have hsize : 0 + (bytes ("(* " ++ text)).length = ("(* " ++ text).utf8ByteSize := Nat.zero_add _
  have hshape := oneComment_iff_of_step? hstep (Or.inl rfl) hsize
  rw [hlength] at hshape
  refine ⟨hshape.trans Nat.add_left_cancel_iff, fun hall => ?_⟩
  unfold ScanState.after
  rw [tokens_of_whole_comment hstep (by rw [hlength, hall])]

/-- A line, and the blank and the closing delimiter behind it. -/
theorem bytes_closing (line : String) :
    bytes (line ++ " *)") = bytes line ++ [0x20, star, closeParen] :=
  bytes_append line " *)"

namespace ScansAs

variable {state : ScanState} {line : String} {depth : Depth} {body : List Byte}

/-- **A line of a comment that goes on** is one comment, and is left in it, just if its counter
never comes to zero; it is left at the depth of the counter. -/
theorem goesOn (h : ScansAs state line depth body) :
    ((OneComment line (spansOf state line).1 ∧ (state.after line).mode = .comment) ↔
        (start depth.toNat).Stays body) ∧
      ((start depth.toNat).Stays body → ∃ last : Depth, last ≠ 0 ∧
        state.after line = ⟨.comment, last, true⟩ ∧
        last.toNat = (start depth.toNat).depthAfter body body.length) := by
  have hstays : (start depth.toNat).Stays body → ∃ last : Depth, last ≠ 0 ∧
      state.after line = ⟨.comment, last, true⟩ ∧
      last.toNat = (start depth.toNat).depthAfter body body.length := by
    intro hstays
    obtain ⟨hall, hopen, hdepth⟩ := commentFrom_of_stays hstays
    refine ⟨_, hopen, ?_, hdepth⟩
    rw [h.behind hall]
    exact congrArg (ScanState.mk · _ true) (if_neg hopen)
  refine ⟨⟨fun ⟨hshape, hmode⟩ => stays_iff.mpr fun hzero => ?_, fun hs => ?_⟩, hstays⟩
  · rw [h.behind (h.shape.mp hshape), hzero] at hmode
    cases hmode
  · obtain ⟨last, -, hafter, -⟩ := hstays hs
    exact ⟨h.shape.mpr (commentFrom_of_stays hs).1, by rw [hafter]⟩

/-- **The last line of a comment** is one comment, and is left in code, just if its counter
never comes to zero in front of the closing delimiter, and is at one there. -/
theorem last {text : String} (h : ScansAs state line depth (bytes (text ++ " *)"))) :
    (OneComment line (spansOf state line).1 ∧ state.after line = .start) ↔
      (start depth.toNat).Stays (bytes text) ∧
        (start depth.toNat).depthAfter (bytes text) (bytes text).length = 1 := by
  have hcloses := @closes_iff (bytes text) depth 0x20 rfl
  rw [← bytes_closing] at hcloses
  rw [h.shape, ← hcloses]
  refine and_congr_right fun hall => ?_
  rw [h.behind hall]
  constructor
  · intro hstart
    exact congrArg ScanState.depth hstart
  · intro hzero
    rw [hzero]
    rfl

end ScansAs

/-! ## The lines of a commented text -/

/-- The answers to lines are those of one comment: every line is a part of it, behind every
line but the last one it goes on, and behind the last one there is code as at the start of a
document. -/
inductive IsOneComment : List String → List Answer → Prop
  | last {line : String} {spans : List Span} (shape : OneComment line spans) (seen : Nat) :
    IsOneComment [line] [⟨some spans, .start, seen⟩]
  | goesOn {line : String} {spans : List Span} {state : ScanState} {lines : List String}
    {answers : List Answer} (shape : OneComment line spans) (inside : state.mode = .comment)
    (seen : Nat) (rest : IsOneComment lines answers) :
    IsOneComment (line :: lines) (⟨some spans, state, seen⟩ :: answers)

/-- The answers to lines that fit, `seen` lines being behind. -/
def lineAnswers (state : ScanState) (seen : Nat) : List String → List Answer
  | [] => []
  | line :: lines =>
    ⟨some (spansOf state line).1, state.after line, seen + 1⟩
      :: lineAnswers (state.after line) (seen + 1) lines

/-- Lines that fit are answered. -/
theorem run_lines (highlighter : BufferedHighlighter) {lines : List String}
    (fits : ∀ line ∈ lines, line.utf8ByteSize < 2 ^ 32) :
    ∃ final, highlighter.run (lines.map .line)
      = .ok (lineAnswers highlighter.state highlighter.linesSeen lines, final) := by
  induction lines generalizing highlighter with
  | nil => exact ⟨highlighter, rfl⟩
  | cons line lines ih =>
    obtain ⟨final, hrest⟩ := ih ⟨highlighter.state.after line, LineBuffer.ofLine line,
      highlighter.linesSeen + 1⟩ fun other hmem => fits other (List.mem_cons_of_mem line hmem)
    refine ⟨final, ?_⟩
    rw [List.map_cons, BufferedHighlighter.run, serve,
      line_of_fits highlighter (fits line List.mem_cons_self), ok_bind]
    dsimp only
    rw [pure_bind, hrest]
    rfl

/-- The answer to the only line. -/
theorem isOneComment_singleton (state : ScanState) (seen : Nat) (line : String) :
    IsOneComment [line] (lineAnswers state seen [line]) ↔
      OneComment line (spansOf state line).1 ∧ state.after line = .start := by
  unfold lineAnswers lineAnswers
  constructor
  · intro h
    generalize state.after line = next at h
    cases h with
    | last shape => exact ⟨shape, rfl⟩
    | goesOn _ _ _ rest => cases rest
  · rintro ⟨shape, hnext⟩
    rw [hnext]
    exact .last shape _

/-- The answers to a line and others behind it. -/
theorem isOneComment_cons (state : ScanState) (seen : Nat) (line : String) {lines : List String}
    (hlines : lines ≠ []) :
    IsOneComment (line :: lines) (lineAnswers state seen (line :: lines)) ↔
      (OneComment line (spansOf state line).1 ∧ (state.after line).mode = .comment) ∧
        IsOneComment lines (lineAnswers (state.after line) (seen + 1) lines) := by
  rw [lineAnswers]
  constructor
  · intro h
    generalize hanswers : lineAnswers (state.after line) (seen + 1) lines = answers at h
    generalize state.after line = next at h
    cases h with
    | last => exact absurd rfl hlines
    | goesOn shape inside _ rest => exact ⟨⟨shape, inside⟩, rest⟩
  · rintro ⟨⟨shape, inside⟩, rest⟩
    exact .goesOn shape inside _ rest

/-- **The lines of a comment are counted by pairs.**  The first line may open the comment with
some text in front, `lead`; the others are entered in it. -/
theorem isOneComment_iff (text : String) {state : ScanState} {lead : String} {depth : Depth}
    (hlead : '\n' ∉ lead.toList)
    (hscan : ∀ line : String, ScansAs state (lead ++ line) depth (bytes line)) (seen : Nat) :
    IsOneComment (linesOf (lead ++ text ++ " *)"))
        (lineAnswers state seen (linesOf (lead ++ text ++ " *)"))) ↔
      (start depth.toNat).Stays (bytes text) ∧
        (start depth.toNat).depthAfter (bytes text) (bytes text).length = 1 := by
  induction text using line_induction generalizing state lead depth seen with
  | line text htext =>
    have hline : '\n' ∉ (lead ++ text ++ " *)").toList :=
      newline_not_mem_append (newline_not_mem_append hlead htext) (by decide)
    rw [linesOf_line hline, isOneComment_singleton, String.append_assoc]
    exact (hscan (text ++ " *)")).last
  | cons line text hline ih =>
    have hfirst : '\n' ∉ (lead ++ line).toList := newline_not_mem_append hlead hline
    have hsplit : lead ++ (line ++ "\n" ++ text) ++ " *)"
        = lead ++ line ++ "\n" ++ ("" ++ text ++ " *)") := by
      simp only [String.append_assoc, String.empty_append]
    have hbytes : bytes (line ++ "\n" ++ text) = bytes line ++ 0x0A :: bytes text := by
      rw [bytes_append, bytes_append, List.append_assoc]
      rfl
    obtain ⟨hgoes, hbehind⟩ := (hscan line).goesOn
    rw [hsplit, linesOf_line_append hfirst, isOneComment_cons _ _ _ (linesOf_ne_nil _), hgoes,
      hbytes, stays_separated (by decide), depthAfter_separated (by decide), and_assoc]
    refine and_congr_right fun hstays => ?_
    -- The next line is entered in the comment, where the counter has come to.
    obtain ⟨last, hlast, hafter, hdepth⟩ := hbehind hstays
    rw [hafter, ← hdepth]
    refine ih (by decide) (fun other => ?_) (seen + 1)
    rw [String.empty_append]
    exact scansAs_entered hlast other

/-- The comment around a text. -/
theorem commentOut_ocaml (text : String) :
    LanguageMode.ocaml.commentOut text = some ("(* " ++ text ++ " *)") := by
  show some ("(*" ++ " " ++ text ++ " " ++ "*)") = _
  rw [@String.append_assoc _ " " "*)"]
  rfl

/-- A line that opens a comment is one token, and closes the comment, just if it is one
comment that ends in code. -/
theorem tokens_opening_iff (text : String) :
    (∃ final, tokens .start (bytes ("(* " ++ text ++ " *)"))
        = ([⟨.comment, ("(* " ++ text ++ " *)").utf8ByteSize⟩], final) ∧ final.isOpen = false) ↔
      (start 1).Stays (bytes text) ∧ (start 1).depthAfter (bytes text) (bytes text).length = 1 := by
  have hcloses := @closes_iff (bytes text) 1 0x20 rfl
  rw [← bytes_closing] at hcloses
  have hstep := step?_opening (text ++ " *)")
  have hlength := length_bytes_opening (text ++ " *)")
  rw [String.append_assoc, ← length_bytes]
  refine Iff.trans ⟨?_, ?_⟩ hcloses
  · rintro ⟨final, htokens, hclosed⟩
    rw [tokens_of_comment hstep] at htokens
    obtain ⟨htoken, -⟩ := List.cons.inj (Prod.mk.inj htokens).1
    have hall : 3 + (commentFrom 0 1 (bytes (text ++ " *)"))).1 = _ := congrArg Token.length htoken
    rw [← tokens_of_comment hstep, tokens_of_whole_comment hstep hall] at htokens
    obtain ⟨-, rfl⟩ := Prod.mk.inj htokens
    refine ⟨Nat.add_left_cancel (hall.trans hlength), ?_⟩
    by_contra hopen
    rw [ScanState.isOpen, ScanState.withDepth_mode _ hopen] at hclosed
    cases hclosed
  · rintro ⟨hall, hzero⟩
    refine ⟨_, tokens_of_whole_comment hstep (by rw [hlength, hall]), ?_⟩
    rw [hzero]
    rfl

/-- **Text that is commented out** is one comment just if its pairs balance.  Highlighted line
by line from the start of a document, every line of it is blanks and one comment to its end,
every line but the last one is left in the comment, and the last one in the state at the
start of a document.  A text of one line is then one token, and leaves nothing open. -/
theorem commentOut_is_one_comment (text : String) (short : text.utf8ByteSize < 2 ^ 31) :
    ∃ comment replies, LanguageMode.ocaml.commentOut text = some comment ∧
      answers ((linesOf comment).map .line) = .ok replies ∧
      (IsOneComment (linesOf comment) replies ↔ Balanced (bytes text)) ∧
      ('\n' ∉ text.toList →
        ((∃ final, tokenizeLine .start comment
            = .ok ([⟨.comment, comment.utf8ByteSize⟩], final) ∧ final.isOpen = false) ↔
          Balanced (bytes text))) := by
  have hsize : ("(* " ++ text ++ " *)").utf8ByteSize = text.utf8ByteSize + 6 := by
    rw [String.utf8ByteSize_append, String.utf8ByteSize_append]
    show 3 + text.utf8ByteSize + 3 = _
    omega
  have fits : ∀ line ∈ linesOf ("(* " ++ text ++ " *)"), line.utf8ByteSize < 2 ^ 32 := by
    intro line hline
    have hle := utf8ByteSize_le_of_mem_linesOf hline
    omega
  have hbalanced : Balanced (bytes text) ↔ _ := balanced_iff (by rw [length_bytes]; omega)
  obtain ⟨final, hrun⟩ := run_lines BufferedHighlighter.new fits
  refine ⟨_, lineAnswers .start 0 (linesOf ("(* " ++ text ++ " *)")), commentOut_ocaml text, ?_, ?_,
    fun _ => ?_⟩
  · unfold answers
    rw [hrun, ok_bind]
    rfl
  · rw [hbalanced]
    exact isOneComment_iff text (by decide) scansAs_opening 0
  · rw [hbalanced, tokenizeLine_eq (by omega), ← tokens_opening_iff]
    simp only [Except.ok.injEq]

/-- A comment in the text goes over its line end and shares a star between its delimiters; and
a text that closes the comment around it is not one comment, though as many pairs open in it
as close. -/
theorem commentOut_is_one_comment_shared :
    (∃ comment replies, LanguageMode.ocaml.commentOut "a (*)\n (* b\n*) " = some comment ∧
      answers ((linesOf comment).map .line) = .ok replies ∧
      IsOneComment (linesOf comment) replies) ∧
      ∃ comment, LanguageMode.ocaml.commentOut "*) (*" = some comment ∧
        ¬ ∃ final, tokenizeLine .start comment
          = .ok ([⟨.comment, comment.utf8ByteSize⟩], final) ∧ final.isOpen = false := by
  obtain ⟨comment, replies, hcomment, hreplies, hlines, -⟩ :=
    commentOut_is_one_comment "a (*)\n (* b\n*) " (by decide)
  obtain ⟨other, -, hother, -, -, hline⟩ := commentOut_is_one_comment "*) (*" (by decide)
  refine ⟨⟨comment, replies, hcomment, hreplies, hlines.mpr ?_⟩, other, hother, fun h => ?_⟩
  · decide +kernel
  · have hunbalanced : ¬ Balanced (bytes "*) (*") := by decide +kernel
    exact hunbalanced ((hline (by decide)).mp h)

end OCamlHighlight
