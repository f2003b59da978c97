/-
# Three ways through a document

A line can be scanned on its own, by a highlighter that has come through other
lines, or to fill in the states of lines.  The last two keep one buffer for all
lines, and the states are filled in by a loop that may stop early.  All three give
the same.

* `LineBuffer.tokens_reset`: what was in a buffer before does not count.
* `Passage` is what a host knows of a highlighter from its own requests: the state
  it has started it in, and the lines since then.  The highlighter follows it
  (`Follows.serve`, `follows_run`).
* `lines_eq` and `bufferedOfLines_eq` read the spans and the states of a document
  off one scan of its lines.
* `drivers_agree` collects the answers to every session and the two views of every
  document.
-/
import OCamlHighlight.BufferedHighlighter
import OCamlHighlight.Proofs.CheckedScan

namespace OCamlHighlight

/-- The tokens of a line do not depend on the buffer that it is put into. -/
theorem LineBuffer.tokens_reset (buffer : LineBuffer) (line : String) (state : ScanState) :
    (buffer.reset line).tokens state = tokenizeLine state line := by
  rw [reset_eq, tokens_ofLine]

namespace BufferedHighlighter

/-- **One line of a highlighter** is the line on its own. -/
theorem line_eq (highlighter : BufferedHighlighter) (text : String) :
    highlighter.line text = (do
      let (tokens, state) ← tokenizeLine highlighter.state text
      return (Span.place 0 tokens,
        ⟨state, LineBuffer.ofLine text, highlighter.linesSeen + 1⟩)) := by
  unfold line
  dsimp only
  rw [LineBuffer.tokens_reset, LineBuffer.reset_eq]

/-! ## What a host knows of its highlighter -/

/-- The state in which a host has started its highlighter last, and the lines that it
has given it since then. -/
structure Passage where
  start : ScanState
  lines : List String

namespace Passage

/-- A request starts the highlighter anew or gives it one line more. -/
def extend (passage : Passage) : Request → Passage
  | .new => ⟨.start, []⟩
  | .resume state => ⟨state, []⟩
  | .reset => ⟨.start, []⟩
  | .line text => ⟨passage.start, passage.lines ++ [text]⟩
  | .lineMerged text => ⟨passage.start, passage.lines ++ [text]⟩

/-- The state behind the lines, each scanned on its own. -/
def state (passage : Passage) : Except Fault ScanState :=
  passage.lines.foldlM
    (fun state line => do
      let (_, next) ← tokenizeLine state line
      return next)
    passage.start

/-- The spans that a request asks for, if the line is entered in the given state. -/
def spans (state : ScanState) : Request → Except Fault (Option (List Span))
  | .new => return none
  | .resume _ => return none
  | .reset => return none
  | .line text => do
    let (tokens, _) ← tokenizeLine state text
    return some (Span.place 0 tokens)
  | .lineMerged text => do
    let (tokens, _) ← tokenizeLine state text
    return some (Span.merge (Span.place 0 tokens))

/-- What a host can expect of its next request. -/
def answer (passage : Passage) (request : Request) : Except Fault Answer := do
  let spans ← spans (← passage.state) request
  let state ← (passage.extend request).state
  return ⟨spans, state, (passage.extend request).lines.length⟩

end Passage

/-- The lines since the last start, in a session from the top of a document on. -/
def passage (requests : List Request) : Passage := requests.foldl Passage.extend ⟨.start, []⟩

/-- One line more is one scan more. -/
theorem Passage.state_concat (start : ScanState) (lines : List String) (text : String) :
    Passage.state ⟨start, lines ++ [text]⟩ = (do
      let state ← Passage.state ⟨start, lines⟩
      let (_, next) ← tokenizeLine state text
      return next) := by
  unfold Passage.state
  rw [List.foldlM_append]
  simp only [List.foldlM_cons, List.foldlM_nil, bind_pure]

/-- A highlighter is where its passage leads. -/
structure Follows (highlighter : BufferedHighlighter) (passage : Passage) : Prop where
  state_eq : passage.state = .ok highlighter.state
  linesSeen_eq : highlighter.linesSeen = passage.lines.length

section Follows

variable {highlighter next : BufferedHighlighter} {passage : Passage} {request : Request}
  {spans : Option (List Span)}

/-- The state behind one line more. -/
theorem Follows.state_concat (h : highlighter.Follows passage) (text : String) :
    Passage.state ⟨passage.start, passage.lines ++ [text]⟩ = (do
      let (_, next) ← tokenizeLine highlighter.state text
      return next) := by
  have hstate : Passage.state ⟨passage.start, passage.lines⟩ = .ok highlighter.state := h.state_eq
  rw [Passage.state_concat, hstate, ok_bind]

/-- **A request serves as expected**, and where it ends in a fault, this fault is
expected too. -/
theorem Follows.answer (h : highlighter.Follows passage) (request : Request) :
    passage.answer request = (do
      let (spans, next) ← highlighter.serve request
      return ⟨spans, next.state, next.linesSeen⟩) := by
  unfold Passage.answer
  rw [h.state_eq, ok_bind]
  cases request with
  | new | resume _ | reset => rfl
  | line text | lineMerged text =>
    simp only [Passage.spans, Passage.extend, h.state_concat, BufferedHighlighter.serve, lineMerged,
      line_eq, h.linesSeen_eq]
    cases tokenizeLine highlighter.state text with
    | error fault => rfl
    | ok scanned => simp only [ok_bind, pure_bind, List.length_append, List.length_singleton]

/-- One line more. -/
theorem Follows.line (h : highlighter.Follows passage) {text : String} {spans : List Span}
    (hline : highlighter.line text = .ok (spans, next)) :
    next.Follows ⟨passage.start, passage.lines ++ [text]⟩ := by
  rw [line_eq] at hline
  obtain ⟨⟨tokens, state⟩, htokens, hret⟩ := bind_eq_ok.mp hline
  cases hret
  refine ⟨?_, ?_⟩
  · rw [h.state_concat, htokens]
    rfl
  · rw [List.length_append, ← h.linesSeen_eq]
    rfl

/-- Behind a request the highlighter is where the longer passage leads. -/
theorem Follows.serve (h : highlighter.Follows passage)
    (hserve : highlighter.serve request = .ok (spans, next)) :
    next.Follows (passage.extend request) := by
  cases request with
  | new | resume _ | reset =>
    cases hserve
    exact ⟨rfl, rfl⟩
  | line text =>
    obtain ⟨⟨lineSpans, _⟩, hline, hret⟩ := bind_eq_ok.mp hserve
    cases hret
    exact h.line hline
  | lineMerged text =>
    obtain ⟨⟨mergedSpans, _⟩, hmerged, hret⟩ := bind_eq_ok.mp hserve
    cases hret
    obtain ⟨⟨lineSpans, _⟩, hline, hret⟩ := bind_eq_ok.mp hmerged
    cases hret
    exact h.line hline

end Follows

/-! ## Sessions -/

/-- One request more. -/
theorem run_concat (highlighter : BufferedHighlighter) (past : List Request) (request : Request) :
    highlighter.run (past ++ [request]) = (do
      let (answers, final) ← highlighter.run past
      let (spans, next) ← final.serve request
      return (answers ++ [⟨spans, next.state, next.linesSeen⟩], next)) := by
  induction past generalizing highlighter with
  | nil =>
    show highlighter.run [request] = _
    simp only [run, ok_bind]
    rfl
  | cons first past ih =>
    simp only [List.cons_append, run]
    cases highlighter.serve first with
    | error fault => rfl
    | ok served =>
      simp only [ok_bind, ih]
      cases served.2.run past with
      | error fault => rfl
      | ok before =>
        simp only [ok_bind, pure_bind]
        cases before.2.serve request with
        | error fault => rfl
        | ok last => rfl

/-- **Sessions follow their passage.** -/
theorem follows_run {requests : List Request} {answers : List Answer}
    {final : BufferedHighlighter} (h : new.run requests = .ok (answers, final)) :
    final.Follows (passage requests) := by
  induction requests using List.reverseRecOn generalizing answers final with
  | nil =>
    cases h
    exact ⟨rfl, rfl⟩
  | append_singleton past request ih =>
    rw [run_concat] at h
    obtain ⟨⟨before, highlighter⟩, hpast, h⟩ := bind_eq_ok.mp h
    obtain ⟨⟨spans, next⟩, hserve, hret⟩ := bind_eq_ok.mp h
    cases hret
    unfold passage
    rw [List.foldl_append]
    exact (ih hpast).serve hserve

/-- **The next answer.**  It depends on the passage of the earlier requests only. -/
theorem answers_concat (past : List Request) (request : Request) :
    answers (past ++ [request]) = (do
      let earlier ← answers past
      let last ← (passage past).answer request
      return earlier ++ [last]) := by
  unfold answers
  rw [run_concat]
  cases hrun : new.run past with
  | error fault => rfl
  | ok before =>
    simp only [ok_bind, pure_bind, (follows_run hrun).answer]
    cases before.2.serve request with
    | error fault => rfl
    | ok last => rfl

/-! ## Lines that fit -/

/-- The line of a request, if there is one, fits into a buffer. -/
def Request.Fits : Request → Prop
  | .line text => text.utf8ByteSize < 2 ^ 32
  | .lineMerged text => text.utf8ByteSize < 2 ^ 32
  | _ => True

instance (request : Request) : Decidable request.Fits :=
  match request with
  | .line text => inferInstanceAs (Decidable (text.utf8ByteSize < 2 ^ 32))
  | .lineMerged text => inferInstanceAs (Decidable (text.utf8ByteSize < 2 ^ 32))
  | .new => .isTrue trivial
  | .resume _ => .isTrue trivial
  | .reset => .isTrue trivial

/-- A line that fits has its spans. -/
theorem line_of_fits (highlighter : BufferedHighlighter) {text : String}
    (fits : text.utf8ByteSize < 2 ^ 32) :
    highlighter.line text = .ok ((spansOf highlighter.state text).1,
      ⟨highlighter.state.after text, LineBuffer.ofLine text, highlighter.linesSeen + 1⟩) := by
  rw [line_eq, tokenizeLine_eq fits]
  rfl

/-- A request that fits is served. -/
theorem exists_serve (highlighter : BufferedHighlighter) {request : Request}
    (fits : request.Fits) : ∃ spans next, highlighter.serve request = .ok (spans, next) := by
  cases request with
  | new | resume _ | reset => exact ⟨_, _, rfl⟩
  | line text => exact ⟨_, _, bind_eq_ok.mpr ⟨_, highlighter.line_of_fits fits, rfl⟩⟩
  | lineMerged text =>
    have hmerged : ∃ served, highlighter.lineMerged text = .ok served :=
      ⟨_, bind_eq_ok.mpr ⟨_, highlighter.line_of_fits fits, rfl⟩⟩
    obtain ⟨served, hserved⟩ := hmerged
    exact ⟨_, _, bind_eq_ok.mpr ⟨_, hserved, rfl⟩⟩

/-- **Requests that fit are answered**, each as the requests before it let expect. -/
theorem exists_answers {requests : List Request} (fits : ∀ request ∈ requests, request.Fits) :
    ∃ replies, answers requests = .ok replies ∧ replies.length = requests.length ∧
      ∀ i request, requests[i]? = some request →
        ∃ reply, replies[i]? = some reply ∧
          (passage (requests.take i)).answer request = .ok reply := by
  induction requests using List.reverseRecOn with
  | nil => exact ⟨[], rfl, rfl, by simp⟩
  | append_singleton past request ih =>
    obtain ⟨earlier, hearlier, hlen, hget⟩ :=
      ih fun other hmem => fits other (List.mem_append_left _ hmem)
    obtain ⟨⟨before, highlighter⟩, hrun, hret⟩ := bind_eq_ok.mp hearlier
    obtain ⟨spans, next, hserve⟩ := exists_serve highlighter (fits request (by simp))
    have hlast : (passage past).answer request = .ok ⟨spans, next.state, next.linesSeen⟩ := by
      rw [(follows_run hrun).answer, hserve]
      rfl
    refine ⟨earlier ++ [⟨spans, next.state, next.linesSeen⟩], ?_, by simp [hlen], ?_⟩
    · rw [answers_concat, hearlier, ok_bind, hlast]
      rfl
    · intro i other hi
      rcases Nat.lt_or_ge i past.length with hlt | hge
      · rw [List.getElem?_append_left hlt] at hi
        rw [List.getElem?_append_left (hlen ▸ hlt),
          List.take_append_of_le_length (Nat.le_of_lt hlt)]
        exact hget i other hi
      · have hbound : i < (past ++ [request]).length := (List.getElem?_eq_some_iff.mp hi).1
        obtain rfl : i = past.length := by
          rw [List.length_append, List.length_singleton] at hbound
          omega
        rw [List.getElem?_concat_length] at hi
        cases hi
        rw [← hlen, List.getElem?_concat_length, hlen, List.take_left']
        · exact ⟨_, rfl, hlast⟩
        · rfl

/-! ## Documents -/

/-- The spans of lines, read off their scan. -/
theorem lines_eq (highlighter : BufferedHighlighter) (texts : List String) :
    highlighter.lines texts = (do
      let scans ← tokenizeLines highlighter.state texts
      return scans.map fun scan => Span.place 0 scan.1) := by
  induction texts generalizing highlighter with
  | nil => rfl
  | cons text rest ih =>
    simp only [lines, line_eq, tokenizeLines]
    cases tokenizeLine highlighter.state text with
    | error fault => rfl
    | ok scan =>
      simp only [ok_bind, pure_bind, ih]
      cases tokenizeLines scan.2 rest with
      | error fault => rfl
      | ok scans => rfl

/-- Lines that fit have their spans. -/
theorem lines_of_fits (highlighter : BufferedHighlighter) {texts : List String}
    (fits : ∀ text ∈ texts, text.utf8ByteSize < 2 ^ 32) :
    highlighter.lines texts
      = .ok (Highlighter.lines ⟨highlighter.state, highlighter.linesSeen⟩ texts) := by
  induction texts generalizing highlighter with
  | nil => rfl
  | cons text rest ih =>
    rw [lines, highlighter.line_of_fits (fits text List.mem_cons_self), ok_bind]
    dsimp only
    rw [ih _ fun other hmem => fits other (List.mem_cons_of_mem _ hmem), ok_bind]
    rfl

end BufferedHighlighter

namespace LineStates

/-- Where no state is known the loop comes to the last line. -/
theorem bufferedRefresh_unknown (buffer : LineBuffer) (state : ScanState) (lines : List String) :
    bufferedRefresh buffer state lines (List.replicate lines.length none) = (do
      let scans ← tokenizeLines state lines
      return (scans.map fun scan => some scan.2, lines.length)) := by
  induction lines generalizing buffer state with
  | nil => rfl
  | cons line lines ih =>
    simp only [List.length_cons, List.replicate_succ, bufferedRefresh, LineBuffer.tokens_reset,
      tokenizeLines]
    cases tokenizeLine state line with
    | error fault => rfl
    | ok scan =>
      simp only [ok_bind, reduceCtorEq, if_false, ih]
      cases tokenizeLines scan.2 lines with
      | error fault => rfl
      | ok scans => rfl

/-- The states of a document, read off the scan of its lines. -/
theorem bufferedOfLines_eq (lines : List String) :
    bufferedOfLines lines = (do
      let scans ← tokenizeLines .start lines
      return ⟨(ScanState.start :: scans.map Prod.snd).map some⟩) := by
  have hentries : resize new.entries (lines.length + 1)
      = some .start :: List.replicate lines.length none := by
    simp [resize, new]
  have hknown : lastKnown (some .start :: List.replicate lines.length none) 0 = 0 := rfl
  have hloop := bufferedRefresh_unknown (.ofLine "") .start lines
  unfold bufferedOfLines bufferedRescan
  rw [hentries, Nat.zero_min]
  simp only [hknown, List.drop_zero, Nat.zero_add, List.drop_succ_cons, List.getElem?_cons_zero,
    Option.join_some, Option.getD_some, hloop]
  cases tokenizeLines .start lines with
  | error fault => rfl
  | ok scans =>
    simp only [ok_bind, pure_bind, List.map_cons, List.map_map]
    rfl

/-- The state before a line, where all states are known. -/
theorem before_map_some (states : List ScanState) (i : Nat) :
    before ⟨states.map some⟩ i = states[i]? := by
  unfold before
  rw [List.getElem?_map]
  cases states[i]? with
  | none => rfl
  | some state => rfl

/-- The loop goes through lines that fit without a fault, and stops where it should. -/
theorem bufferedRefresh_of_fits (buffer : LineBuffer) (state : ScanState) {lines : List String}
    (fits : ∀ line ∈ lines, line.utf8ByteSize < 2 ^ 32) (entries : List (Option ScanState)) :
    bufferedRefresh buffer state lines entries = .ok (refresh state lines entries) := by
  induction lines generalizing buffer state entries with
  | nil => rfl
  | cons line lines ih =>
    cases entries with
    | nil => rfl
    | cons entry entries =>
      rw [bufferedRefresh, refresh]
      dsimp only
      rw [LineBuffer.tokens_reset, tokenizeLine_eq (fits line List.mem_cons_self), ok_bind]
      show (if entry = some (state.after line) then _ else _) = _
      by_cases hentry : entry = some (state.after line)
      · rw [if_pos hentry, if_pos hentry]
        rfl
      · rw [if_neg hentry, if_neg hentry,
          ih _ _ fun other hmem => fits other (List.mem_cons_of_mem _ hmem)]
        rfl

/-- **A scan through a buffer** of lines that fit is a scan. -/
theorem bufferedRescan_of_fits (states : LineStates) {lines : List String}
    (fits : ∀ line ∈ lines, line.utf8ByteSize < 2 ^ 32) (line : Nat) :
    states.bufferedRescan lines line = .ok (states.rescan lines line) := by
  unfold bufferedRescan rescan
  dsimp only
  rw [bufferedRefresh_of_fits _ _ fun other hmem => fits other (List.mem_of_mem_drop hmem)]
  rfl

/-- The states of lines that fit. -/
theorem bufferedOfLines_of_fits {lines : List String}
    (fits : ∀ line ∈ lines, line.utf8ByteSize < 2 ^ 32) :
    bufferedOfLines lines = .ok (ofLines lines) := by
  unfold bufferedOfLines
  rw [bufferedRescan_of_fits new fits, ok_bind]
  rfl

end LineStates

/-- **A scan of lines, line by line.**  Each line is scanned from the state behind the
line above it. -/
theorem getElem?_tokenizeLines {state : ScanState} {lines : List String}
    {scans : List (List Token × ScanState)} (h : tokenizeLines state lines = .ok scans) :
    scans.length = lines.length ∧ ∀ (i : Nat) (line : String), lines[i]? = some line →
      ∃ entry scan, (state :: scans.map Prod.snd)[i]? = some entry ∧ scans[i]? = some scan ∧
        tokenizeLine entry line = .ok scan := by
  induction lines generalizing state scans with
  | nil =>
    cases h
    exact ⟨rfl, by simp⟩
  | cons first lines ih =>
    obtain ⟨⟨tokens, next⟩, hfirst, h⟩ := bind_eq_ok.mp h
    obtain ⟨rest, hrest, hret⟩ := bind_eq_ok.mp h
    cases hret
    obtain ⟨hlen, hget⟩ := ih hrest
    refine ⟨congrArg (· + 1) hlen, fun i line hi => ?_⟩
    cases i with
    | zero =>
      cases hi
      exact ⟨state, (tokens, next), rfl, rfl, hfirst⟩
    | succ i => exact hget i line hi

open BufferedHighlighter

/-- **One line from the states.**  A document faults in both views or in none.  Where
it does not, a highlighter that goes on from the state before a line gives its spans
and leaves the state after it. -/
theorem document_eq_states (text : String) :
    (∃ fault, LineStates.bufferedOfLines (linesOf text) = .error fault ∧
      document text = .error fault) ∨
    ∃ states spans, LineStates.bufferedOfLines (linesOf text) = .ok states ∧
      document text = .ok spans ∧ spans.length = (linesOf text).length ∧
      ∀ (i : Nat) (line : String), (linesOf text)[i]? = some line →
        ∃ entry lineSpans next, states.before i = some entry ∧ spans[i]? = some lineSpans ∧
          (resume entry).line line = .ok (lineSpans, next) ∧
          states.after i = some next.state := by
  have hdocument : document text = (do
      let scans ← tokenizeLines .start (linesOf text)
      return scans.map fun scan => Span.place 0 scan.1) := new.lines_eq (linesOf text)
  rw [LineStates.bufferedOfLines_eq, hdocument]
  cases hscans : tokenizeLines .start (linesOf text) with
  | error fault => exact .inl ⟨fault, rfl, rfl⟩
  | ok scans =>
    obtain ⟨hlen, hget⟩ := getElem?_tokenizeLines hscans
    refine .inr ⟨_, _, rfl, rfl, by rw [List.length_map, hlen], fun i line hi => ?_⟩
    obtain ⟨entry, ⟨tokens, state⟩, hentry, hscan, hline⟩ := hget i line hi
    refine ⟨entry, Span.place 0 tokens, ⟨state, LineBuffer.ofLine line, 1⟩, ?_, ?_, ?_, ?_⟩
    · rw [LineStates.before_map_some, hentry]
    · rw [List.getElem?_map, hscan]
      rfl
    · rw [line_eq, show tokenizeLine (resume entry).state line = _ from hline]
      rfl
    · rw [LineStates.after, LineStates.before_map_some, List.getElem?_cons_succ,
        List.getElem?_map, hscan]
      rfl

/-- **The drivers agree.**  In every session the next answer is what the passage of the
earlier requests lets expect: the spans of the line on its own, entered in the state
that the lines since the last start lead to.  Where all lines fit, every request is
answered.  In every document the states before and behind a line belong to its spans,
and where all lines fit, there are states and spans for the whole of it. -/
theorem drivers_agree :
    (∀ past request, answers (past ++ [request]) = (do
      let earlier ← answers past
      let last ← (passage past).answer request
      return earlier ++ [last])) ∧
    (∀ requests : List Request, (∀ request ∈ requests, request.Fits) →
      ∃ replies, answers requests = .ok replies ∧ replies.length = requests.length ∧
        ∀ i request, requests[i]? = some request →
          ∃ reply, replies[i]? = some reply ∧
            (passage (requests.take i)).answer request = .ok reply) ∧
    (∀ text : String,
      (∃ fault, LineStates.bufferedOfLines (linesOf text) = .error fault ∧
        document text = .error fault) ∨
      ∃ states spans, LineStates.bufferedOfLines (linesOf text) = .ok states ∧
        document text = .ok spans ∧ spans.length = (linesOf text).length ∧
        ∀ (i : Nat) (line : String), (linesOf text)[i]? = some line →
          ∃ entry lineSpans next, states.before i = some entry ∧ spans[i]? = some lineSpans ∧
            (resume entry).line line = .ok (lineSpans, next) ∧
            states.after i = some next.state) ∧
    ∀ text : String, (∀ line ∈ linesOf text, line.utf8ByteSize < 2 ^ 32) →
      LineStates.bufferedOfLines (linesOf text) = .ok (LineStates.ofLines (linesOf text)) ∧
        document text = .ok (highlightDocument text) := by
  refine ⟨answers_concat, fun _ fits => exists_answers fits, document_eq_states,
    fun text fits => ⟨LineStates.bufferedOfLines_of_fits fits, ?_⟩⟩
  exact new.lines_of_fits fits

/-- A long line stands in the buffer before a short one, and a comment goes on over a
line break. -/
theorem drivers_agree_longer :
    (∃ replies, answers [.resume ⟨.comment, 1, false⟩, .line "the end of it *) \"", .reset,
        .lineMerged "( +"] = .ok replies ∧ replies.length = 4 ∧
      ∃ reply, replies[3]? = some reply ∧
        Passage.answer ⟨.start, []⟩ (.lineMerged "( +") = .ok reply) ∧
    ∃ spans states, document "(* a\nb *) \"" = .ok spans ∧
      LineStates.bufferedOfLines ["(* a", "b *) \""] = .ok states ∧
      states = LineStates.ofLines ["(* a", "b *) \""] ∧
      ∃ entry lineSpans next, states.before 1 = some entry ∧ spans[1]? = some lineSpans ∧
        (resume entry).line "b *) \"" = .ok (lineSpans, next) ∧
        states.after 1 = some next.state := by
  have hlines : linesOf "(* a\nb *) \"" = ["(* a", "b *) \""] := by decide +kernel
  obtain ⟨-, hsessions, hviews, hdocuments⟩ := drivers_agree
  obtain ⟨replies, hreplies, hlen, hget⟩ := hsessions
    [.resume ⟨.comment, 1, false⟩, .line "the end of it *) \"", .reset, .lineMerged "( +"]
    (by decide)
  refine ⟨⟨replies, hreplies, hlen, hget 3 _ rfl⟩, ?_⟩
  obtain ⟨hstates, -⟩ := hdocuments "(* a\nb *) \"" (by rw [hlines]; decide)
  have hview := hviews "(* a\nb *) \""
  rw [hstates, hlines] at hview
  rcases hview with ⟨fault, hfault, -⟩ | ⟨states, spans, hok, hspans, -, hline⟩
  · cases hfault
  · rw [hlines] at hstates
    cases hok
    exact ⟨spans, _, hspans, hstates, rfl, hline 1 _ rfl⟩

end OCamlHighlight
