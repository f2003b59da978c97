/-
# What a call does to the scan state

A scan state says twice whether a comment is open, by its mode and by its depth,
and a string that is open leaves no room for a directive.  States in which this
fits together are `Consistent`.  Others can be built, but a scan that starts at the
top of a document never comes to one.

* `Moves` lists all that one call can do to the state.  It is read off the scanner
  once (`LineScanner.moves_of_next`), and once off the steps on plain bytes
  (`moves_of_step?`).
* Each of these moves keeps a state consistent (`Moves.consistent`), whatever depth
  a comment is left with.
* `LineScanner.consistent_of_calls` follows the scanner through a document.
-/
import OCamlHighlight.Proofs.Resumption
import OCamlHighlight.Highlighter

namespace OCamlHighlight

open Byte

namespace ScanState

/-! ## Consistent states -/

/-- The mode is that of a comment exactly if comments are open, and inside a string
or a quoted string no directive may start. -/
structure Consistent (state : ScanState) : Prop where
  comment_iff : state.mode = .comment ↔ 0 < state.depth
  notAtLineStart : state.mode = .string ∨ state.mode = .rawString → state.atLineStart = false

/-- A document starts in a consistent state. -/
theorem consistent_start : Consistent .start := ⟨by decide, by decide⟩

/-- Outside of comments the depth is zero. -/
theorem Consistent.not_pos {state : ScanState} (h : state.Consistent)
    (hmode : state.mode ≠ .comment) : ¬ 0 < state.depth :=
  fun hpos => hmode (h.comment_iff.mpr hpos)

/-- A consistent state in the mode of a comment is inside one. -/
theorem Consistent.not_hollow {state : ScanState} (h : state.Consistent) : ¬ state.Hollow := by
  rintro ⟨hmode, hdepth⟩
  have hpos := h.comment_iff.mp hmode
  rw [hdepth] at hpos
  exact absurd hpos (by decide)

/-- Where comments have come to some depth, the mode follows from it. -/
theorem consistent_withDepth {state : ScanState} (h : state.mode = .comment) (depth : Depth) :
    (state.withDepth depth).Consistent := by
  by_cases hd : depth = 0
  · subst hd
    have hzero : ¬ 0 < (0 : Depth) := by decide
    refine ⟨⟨?_, fun hpos => absurd hpos hzero⟩, ?_⟩
    · intro hc
      cases hc
    · rintro (hs | hs) <;> cases hs
  · have hmode : (state.withDepth depth).mode = .comment := (state.withDepth_mode hd).trans h
    refine ⟨⟨fun _ => UInt32.pos_iff_ne_zero.mpr hd, fun _ => hmode⟩, ?_⟩
    rw [hmode]
    rintro (hs | hs) <;> cases hs

/-! ## Moves -/

/-- What one call can do to the state. -/
inductive Moves (state : ScanState) : ScanState → Prop
  /-- Nothing: at blanks, at the end of the line, at a character without a rule, and
  in a literal that goes on. -/
  | stays : Moves state state
  /-- `;;` lets a directive start. -/
  | separates (base : state.mode = .base) : Moves state { state with atLineStart := true }
  /-- Any other token of code lets none start. -/
  | passes (base : state.mode = .base) : Moves state state.passCode
  /-- A string or a quoted string opens and goes on. -/
  | opens (base : state.mode = .base) {mode : Mode}
    (literal : mode = .string ∨ mode = .rawString) : Moves state (state.openLiteral mode)
  /-- A string or a quoted string is closed. -/
  | closes (literal : state.mode = .string ∨ state.mode = .rawString) : Moves state state.toBase
  /-- A comment opens and leaves some depth. -/
  | opensComment (base : state.mode = .base) (depth : Depth) :
    Moves state (state.openComment.withDepth depth)
  /-- A comment leaves some depth. -/
  | comments (comment : state.mode = .comment) (depth : Depth) :
    Moves state (state.withDepth depth)

variable {state next : ScanState}

/-- A literal that opens and is closed at once is a token of code. -/
theorem toBase_openLiteral (base : state.mode = .base) (mode : Mode) :
    (state.openLiteral mode).toBase = state.passCode := by
  unfold openLiteral toBase passCode
  rw [base]

/-- A string or a quoted string that opens, and may be closed at once. -/
theorem moves_of_opened (base : state.mode = .base) {mode : Mode}
    (literal : mode = .string ∨ mode = .rawString) (closed : Bool) :
    state.Moves (if closed then (state.openLiteral mode).toBase else state.openLiteral mode) := by
  cases closed with
  | true =>
    rw [if_pos rfl, toBase_openLiteral base]
    exact .passes base
  | false => exact .opens base literal

/-- A string or a quoted string that was open, and may be closed. -/
theorem moves_of_resumed (literal : state.mode = .string ∨ state.mode = .rawString)
    (closed : Bool) : state.Moves (if closed then state.toBase else state) := by
  cases closed with
  | true => exact .closes literal
  | false => exact .stays

/-- **A move keeps a state consistent.** -/
theorem Moves.consistent (h : state.Moves next) (hc : state.Consistent) : next.Consistent := by
  cases h with
  | stays => exact hc
  | separates base =>
    refine ⟨hc.comment_iff, ?_⟩
    show state.mode = .string ∨ state.mode = .rawString → _
    rw [base]
    rintro (hs | hs) <;> cases hs
  | passes => exact ⟨hc.comment_iff, fun _ => rfl⟩
  | opens base literal =>
    have hnot := hc.not_pos (by rw [base]; decide)
    refine ⟨⟨fun hmode => ?_, fun hpos => absurd hpos hnot⟩, fun _ => rfl⟩
    rcases literal with rfl | rfl <;> cases hmode
  | closes literal =>
    have hnot : ¬ 0 < state.depth := hc.not_pos (by rcases literal with h | h <;> rw [h] <;> decide)
    refine ⟨⟨?_, fun hpos => absurd hpos hnot⟩, ?_⟩
    · intro hmode
      cases hmode
    · rintro (hs | hs) <;> cases hs
  | opensComment _ depth => exact consistent_withDepth rfl depth
  | comments comment depth => exact consistent_withDepth comment depth

end ScanState

open ScanState

/-! ## Steps on plain bytes -/

/-- What a step of code does to the state. -/
theorem moves_code {state : ScanState} (base : state.mode = .base) (b : Byte)
    (rest : List Byte) : state.Moves (Step.code state b rest).state := by
  unfold Step.code
  cases Rule.select state.atLineStart b rest.head? with
  | separator => exact .separates base
  | string => exact moves_of_opened base (Or.inl rfl) _
  | rawString => exact moves_of_opened base (Or.inr rfl) _
  | comment => exact .opensComment base _
  | other => exact .stays
  | constructor | word | number | directive | operator => exact .passes base

/-- **What a step does to the state.** -/
theorem moves_of_step? {state : ScanState} {bs : List Byte} {step : Step}
    (h : step? state bs = some step) : state.Moves step.state := by
  cases bs with
  | nil => cases h
  | cons b rest =>
    unfold step? at h
    obtain rfl := Option.some.inj h
    by_cases hb : isBlank b = true
    · rw [if_pos hb]
      exact .stays
    · rw [if_neg hb]
      cases hm : state.mode with
      | base => exact moves_code hm b rest
      | string => exact moves_of_resumed (Or.inl hm) _
      | rawString => exact moves_of_resumed (Or.inr hm) _
      | comment => exact .comments hm _

/-- Text leaves a consistent state behind. -/
theorem ScanState.Consistent.tokens {state : ScanState} {bs : List Byte} (ht : IsText bs)
    (h : state.Consistent) : (tokens state bs).2.Consistent := by
  induction state, bs, ht using scan_induction with
  | nil state => rwa [tokens_nil]
  | cons state bs step ht hs ih =>
    rw [tokens_of_step? hs]
    exact ih ((moves_of_step? hs).consistent h)

/-- A line leaves a consistent state behind. -/
theorem ScanState.Consistent.after {state : ScanState} (h : state.Consistent) (line : String) :
    (state.after line).Consistent := h.tokens (isText_bytes line)

namespace LineScanner

/-! ## Calls of the scanner -/

section Calls

variable {scanner next : LineScanner} {cursor : Cursor} {state : ScanState} {tag : Tag}
  {token : Token}

/-- A token leaves the state that it is given. -/
theorem state_of_emit (h : scanner.emit tag cursor state = .ok (token, next)) :
    next.state = state := by
  unfold emit at h
  split at h
  · cases h
    rfl
  · cases h

/-- A string may be closed. -/
theorem state_of_string (h : scanner.string cursor state = .ok (token, next)) :
    ∃ closed : Bool, next.state = if closed then state.toBase else state := by
  obtain ⟨⟨closed, _⟩, -, hemit⟩ := bind_eq_ok.mp h
  exact ⟨closed, state_of_emit hemit⟩

/-- A quoted string may be closed. -/
theorem state_of_rawString (h : scanner.rawString cursor state = .ok (token, next)) :
    ∃ closed : Bool, next.state = if closed then state.toBase else state := by
  obtain ⟨⟨closed, _⟩, -, hemit⟩ := bind_eq_ok.mp h
  exact ⟨closed, state_of_emit hemit⟩

/-- A comment leaves some depth. -/
theorem state_of_comment (h : scanner.comment cursor state = .ok (token, next)) :
    ∃ depth, next.state = state.withDepth depth := by
  obtain ⟨⟨depth, _⟩, -, hemit⟩ := bind_eq_ok.mp h
  exact ⟨depth, state_of_emit hemit⟩

/-- What a token of code does to the state. -/
theorem moves_of_code (base : scanner.state.mode = .base)
    (h : scanner.code = .ok (token, next)) : scanner.state.Moves next.state := by
  obtain ⟨first, -, h⟩ := bind_eq_ok.mp h
  obtain ⟨behind, -, h⟩ := bind_eq_ok.mp h
  obtain ⟨second, -, h⟩ := bind_eq_ok.mp h
  -- Each rule moves the cursor further before it hands on a state.
  cases hrule : Rule.select scanner.state.atLineStart first (some second) with
  | separator =>
    rw [hrule] at h
    obtain ⟨_, -, h⟩ := bind_eq_ok.mp h
    rw [state_of_emit h]
    exact .separates base
  | string =>
    rw [hrule] at h
    obtain ⟨closed, hstate⟩ := state_of_string h
    rw [hstate]
    exact moves_of_opened base (Or.inl rfl) closed
  | rawString =>
    rw [hrule] at h
    obtain ⟨_, -, h⟩ := bind_eq_ok.mp h
    obtain ⟨closed, hstate⟩ := state_of_rawString h
    rw [hstate]
    exact moves_of_opened base (Or.inr rfl) closed
  | comment =>
    rw [hrule] at h
    obtain ⟨_, -, h⟩ := bind_eq_ok.mp h
    obtain ⟨depth, hstate⟩ := state_of_comment h
    rw [hstate]
    exact .opensComment base depth
  | word =>
    rw [hrule] at h
    obtain ⟨_, -, h⟩ := bind_eq_ok.mp h
    obtain ⟨_, -, h⟩ := bind_eq_ok.mp h
    rw [state_of_emit h]
    exact .passes base
  | constructor | number | directive | operator =>
    rw [hrule] at h
    obtain ⟨_, -, h⟩ := bind_eq_ok.mp h
    rw [state_of_emit h]
    exact .passes base
  | other =>
    rw [hrule] at h
    rw [state_of_emit h]
    exact .stays

/-- **What a call does to the state.** -/
theorem moves_of_next (h : scanner.next = .ok (token, next)) :
    scanner.state.Moves next.state := by
  obtain ⟨b, -, h⟩ := bind_eq_ok.mp h
  obtain ⟨atEnd, -, h⟩ := bind_eq_ok.mp h
  by_cases hend : atEnd = true
  · rw [if_pos hend] at h
    cases h
    exact .stays
  rw [if_neg hend] at h
  by_cases hb : isBlank b = true
  · rw [if_pos hb] at h
    obtain ⟨_, -, h⟩ := bind_eq_ok.mp h
    rw [state_of_emit h]
    exact .stays
  rw [if_neg hb] at h
  cases hm : scanner.state.mode with
  | base =>
    rw [hm] at h
    exact moves_of_code hm h
  | string =>
    rw [hm] at h
    obtain ⟨closed, hstate⟩ := state_of_string h
    rw [hstate]
    exact moves_of_resumed (Or.inl hm) closed
  | rawString =>
    rw [hm] at h
    obtain ⟨closed, hstate⟩ := state_of_rawString h
    rw [hstate]
    exact moves_of_resumed (Or.inr hm) closed
  | comment =>
    rw [hm] at h
    obtain ⟨depth, hstate⟩ := state_of_comment h
    rw [hstate]
    exact .comments hm depth

end Calls

/-! ## A scan of a document -/

/-- The scanners that come up while the lines of a document are scanned from the
top: at the start of the first line, behind every call, and at the start of a line
that is entered in the state of such a scanner. -/
inductive Reached : LineScanner → Prop
  | first {line : String} {scanner : LineScanner} (opened : ofLine line .start = .ok scanner) :
    Reached scanner
  | call {scanner next : LineScanner} {token : Token} (reached : Reached scanner)
    (called : scanner.next = .ok (token, next)) : Reached next
  | line {scanner next : LineScanner} {line : String} (reached : Reached scanner)
    (opened : ofLine line scanner.state = .ok next) : Reached next

/-- The state in which some line of a scan is entered. -/
def Entered (state : ScanState) : Prop :=
  state = .start ∨ ∃ scanner, Reached scanner ∧ scanner.state = state

/-- A line is opened in the state that it is entered in. -/
theorem state_of_ofLine {line : String} {state : ScanState} {scanner : LineScanner}
    (h : ofLine line state = .ok scanner) : scanner.state = state := by
  obtain ⟨_, -, h⟩ := bind_eq_ok.mp h
  cases h
  rfl

/-- The scanner at the start of an entered line is reached. -/
theorem Entered.reached {line : String} {state : ScanState} {scanner : LineScanner}
    (h : Entered state) (opened : ofLine line state = .ok scanner) : Reached scanner := by
  rcases h with rfl | ⟨above, habove, rfl⟩
  · exact .first opened
  · exact .line habove opened

/-- So are the scanners behind any number of calls. -/
theorem Reached.calls {scanner : LineScanner} (h : Reached scanner) {n : Nat}
    {calls : List (Token × LineScanner)} (hcalls : scanner.nextCalls n = .ok calls) :
    calls.length = n ∧ ∀ call ∈ calls, Reached call.2 := by
  induction n generalizing scanner calls with
  | zero =>
    cases hcalls
    exact ⟨rfl, by simp⟩
  | succ n ih =>
    obtain ⟨⟨token, next⟩, hnext, hmore⟩ := bind_eq_ok.mp hcalls
    obtain ⟨rest, hrest, hlist⟩ := bind_eq_ok.mp hmore
    cases hlist
    have hreached := h.call hnext
    obtain ⟨hlen, hall⟩ := ih hreached hrest
    exact ⟨congrArg (· + 1) hlen, List.forall_mem_cons.mpr ⟨hreached, hall⟩⟩

/-- **Reached states are consistent.** -/
theorem Reached.consistent {scanner : LineScanner} (h : Reached scanner) :
    scanner.state.Consistent := by
  induction h with
  | first opened =>
    rw [state_of_ofLine opened]
    exact consistent_start
  | call _ called ih => exact (moves_of_next called).consistent ih
  | line _ opened ih =>
    rw [state_of_ofLine opened]
    exact ih

/-- The line after one that fits is entered in the state of the last scanner. -/
theorem Entered.tokenizeLine {line : String} {state : ScanState} (h : Entered state)
    (fits : line.utf8ByteSize < 2 ^ 32) :
    ∃ result, OCamlHighlight.tokenizeLine state line = .ok result ∧ Entered result.2 := by
  obtain ⟨calls, final, -, hlast, hfinal, hcalls⟩ :=
    exists_nextCalls (isText_bytes line) state (before_ofLine fits)
  have hstart := h.reached (ofLine_eq fits state)
  refine ⟨_, tokenizeLine_eq fits state, Or.inr ⟨final, ?_, by rw [hfinal]⟩⟩
  rcases List.mem_cons.mp (List.mem_of_getLast? hlast) with heq | hmem
  · rw [heq]
    exact hstart
  · obtain ⟨call, hcall, rfl⟩ := List.mem_map.mp hmem
    exact (hstart.calls (hcalls 0)).2 call (List.mem_append_left _ hcall)

/-- Lines that fit are all scanned, and the line after them is entered in the state of
the last scanner. -/
theorem Entered.tokenizeLines {lines : List String} {state : ScanState} (h : Entered state)
    (fits : ∀ line ∈ lines, line.utf8ByteSize < 2 ^ 32) :
    ∃ results, OCamlHighlight.tokenizeLines state lines = .ok results ∧
      Entered ((results.map Prod.snd).getLastD state) := by
  induction lines generalizing state with
  | nil => exact ⟨[], rfl, h⟩
  | cons line lines ih =>
    obtain ⟨hline, hlines⟩ := List.forall_mem_cons.mp fits
    obtain ⟨⟨tokens, next⟩, htokens, hnext⟩ := h.tokenizeLine hline
    obtain ⟨results, hresults, hlast⟩ := ih hnext hlines
    refine ⟨(tokens, next) :: results, ?_, ?_⟩
    · rw [OCamlHighlight.tokenizeLines, htokens, ok_bind]
      dsimp only
      rw [hresults]
      rfl
    · rwa [List.map_cons, List.getLastD_cons]

end LineScanner

open LineScanner

/-- **The invariant of a scan.**  Every call keeps a state consistent, whatever its depth
is.  Therefore all states that come up while a document is scanned from the top are
consistent: at the start of each line, behind each call on it, and behind calls
beyond its end.  Where the lines fit into a buffer, all these calls have a result. -/
theorem consistent_of_scan :
    (∀ (scanner next : LineScanner) (token : Token), scanner.next = .ok (token, next) →
      scanner.state.Consistent → next.state.Consistent) ∧
    (∀ scanner, Reached scanner → scanner.state.Consistent) ∧
    ∀ (above : List String) (line : String),
      (∀ text ∈ line :: above, text.utf8ByteSize < 2 ^ 32) →
      ∃ results start, tokenizeLines .start above = .ok results ∧
        ofLine line ((results.map Prod.snd).getLastD .start) = .ok start ∧ Reached start ∧
        ∀ n, ∃ calls, start.nextCalls n = .ok calls ∧ calls.length = n ∧
          ∀ call ∈ calls, Reached call.2 := by
  refine ⟨fun _ _ _ h => (moves_of_next h).consistent, fun _ h => h.consistent, ?_⟩
  intro above line fits
  obtain ⟨hline, habove⟩ := List.forall_mem_cons.mp fits
  obtain ⟨results, hresults, hentered⟩ := Entered.tokenizeLines (Or.inl rfl) habove
  have hopened := ofLine_eq hline ((results.map Prod.snd).getLastD .start)
  have hreached := hentered.reached hopened
  refine ⟨results, _, hresults, hopened, hreached, fun n => ?_⟩
  obtain ⟨calls, -, -, -, hcalls, -⟩ := (inFrontOf_ofLine hline _).calls n
  exact ⟨calls, hcalls, hreached.calls hcalls⟩

/-- At the largest depth a comment opens once more; and a comment is closed on the line
after its own, where a quoted string opens behind it. -/
theorem consistent_of_scan_limit :
    (∃ token next, LineScanner.next ⟨⟨LineBuffer.ofLine "(* (", 0⟩, ⟨.comment, Depth.limit, true⟩⟩
        = .ok (token, next) ∧ next.state = ⟨.comment, Depth.limit, true⟩ ∧
        next.state.Consistent) ∧
      ∃ results start calls, tokenizeLines .start ["(*", "*) \x7b| "] = .ok results ∧
        ofLine "a" ((results.map Prod.snd).getLastD .start) = .ok start ∧
        start.nextCalls 5 = .ok calls ∧ start.state.Consistent ∧
        ∀ call ∈ calls, call.2.state.Consistent := by
  have hlimit : (⟨.comment, Depth.limit, true⟩ : ScanState).Consistent :=
    ⟨⟨fun _ => by decide, fun _ => rfl⟩, by decide⟩
  have hnext : LineScanner.next ⟨⟨LineBuffer.ofLine "(* (", 0⟩, ⟨.comment, Depth.limit, true⟩⟩
      = .ok (⟨.comment, 4⟩, ⟨⟨LineBuffer.ofLine "(* (", 4⟩, ⟨.comment, Depth.limit, true⟩⟩) := by
    decide +kernel
  obtain ⟨results, start, hresults, hopened, hreached, hcalls⟩ :=
    consistent_of_scan.2.2 ["(*", "*) \x7b| "] "a" (by decide)
  obtain ⟨calls, hcalls, -, hall⟩ := hcalls 5
  exact ⟨⟨_, _, hnext, rfl, consistent_of_scan.1 _ _ _ hnext hlimit⟩, results, start, calls,
    hresults, hopened, hcalls, consistent_of_scan.2.1 _ hreached,
    fun call hcall => consistent_of_scan.2.1 _ (hall call hcall)⟩

end OCamlHighlight
