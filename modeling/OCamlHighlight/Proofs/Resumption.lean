/-
# Going on in the middle of a line

A scan can be stopped behind any of its calls and taken up again on what is left of
the line.  The cursor reads backwards in a number, and its sentinel stands where the
whole line ends; none of this reaches over the place where a call has stopped.

* `nextToken` is what a call gives, as a function of the state and the bytes that
  are left; `InFrontOf.next` says that the scanner gives just that.
* `InFrontOf.calls` takes any number of calls: what they have given and what is still
  to come make up the tokens of the line.
* `resume_midline` puts what is left on a line of its own.
-/
import OCamlHighlight.Proofs.CheckedScan

namespace OCamlHighlight

open Byte

/-! ## One call -/

/-- What a call gives in front of some bytes: their first token and the state behind
it, or the end of the line. -/
def nextToken (state : ScanState) (bs : List Byte) : Token × ScanState :=
  match step? state bs with
  | some step => (step.token, step.state)
  | none => (Token.eol, state)

theorem nextToken_nil (state : ScanState) : nextToken state [] = (Token.eol, state) := rfl

theorem nextToken_of_step? {state : ScanState} {bs : List Byte} {step : Step}
    (h : step? state bs = some step) : nextToken state bs = (step.token, step.state) := by
  unfold nextToken
  rw [h]

/-- A token cuts text, and so does the end of the line. -/
theorem isCut_nextToken {bs : List Byte} (ht : IsText bs) (state : ScanState) :
    IsCut bs (nextToken state bs).1.length := by
  cases h : step? state bs with
  | none =>
    obtain rfl := eq_nil_of_step?_eq_none h
    exact isCut_zero ht
  | some step =>
    rw [nextToken_of_step? h]
    exact isCut_step? ht h

/-- The tokens of a line are what a call gives, without the end of the line, and then
the tokens of what it leaves. -/
theorem tokens_eq_nextToken (state : ScanState) (bs : List Byte) :
    tokens state bs =
      ([(nextToken state bs).1].filter (·.tag ≠ .eol) ++
          (tokens (nextToken state bs).2 (bs.drop (nextToken state bs).1.length)).1,
        (tokens (nextToken state bs).2 (bs.drop (nextToken state bs).1.length)).2) := by
  cases h : step? state bs with
  | none =>
    obtain rfl := eq_nil_of_step?_eq_none h
    rw [nextToken_nil, List.drop_nil, tokens_nil]
    rfl
  | some step =>
    have htag : [step.token].filter (·.tag ≠ .eol) = [step.token] :=
      List.filter_cons_of_pos (by simpa using tag_of_step? h)
    rw [nextToken_of_step? h, tokens_of_step? h, htag, rest_of_step? h]
    rfl

namespace LineScanner

/-- The scanner stands in front of text that is left of its line. -/
structure InFrontOf (scanner : LineScanner) (bs : List Byte) : Prop where
  before : scanner.cursor.Before bs
  isText : IsText bs

/-- The scanner behind what a call has given. -/
def behind (scanner : LineScanner) (taken : Token × ScanState) : LineScanner :=
  ⟨scanner.cursor.behind taken.1.length, taken.2⟩

/-- What a call shows: its token, the state behind it, and how far it has come from
a position. -/
def shownFrom (pos : Nat) (call : Token × LineScanner) : Token × ScanState × Nat :=
  (call.1, call.2.state, call.2.cursor.pos - pos)

/-- A line that fits is opened in front of its bytes. -/
theorem inFrontOf_ofLine {line : String} (fits : line.utf8ByteSize < 2 ^ 32) (state : ScanState) :
    InFrontOf ⟨⟨LineBuffer.ofLine line, 0⟩, state⟩ (bytes line) :=
  ⟨before_ofLine fits, isText_bytes line⟩

namespace InFrontOf

variable {scanner scanner' : LineScanner} {bs : List Byte}

/-- **What a call gives** depends on the state and the bytes that are left only. -/
theorem next (h : scanner.InFrontOf bs) :
    scanner.next = .ok ((nextToken scanner.state bs).1,
      scanner.behind (nextToken scanner.state bs)) := by
  cases hs : step? scanner.state bs with
  | none =>
    obtain rfl := eq_nil_of_step?_eq_none hs
    exact next_nil h.before scanner.state
  | some step =>
    rw [nextToken_of_step? hs]
    exact next_of_step? h.before h.isText hs

/-- Behind a call the scanner stands in front of what is left. -/
theorem behind (h : scanner.InFrontOf bs) :
    (scanner.behind (nextToken scanner.state bs)).InFrontOf
      (bs.drop (nextToken scanner.state bs).1.length) := by
  have hcut := isCut_nextToken h.isText scanner.state
  exact ⟨h.before.behind hcut.1, hcut.2.2⟩

/-- A run of calls begins with what the first of them gives. -/
theorem nextCalls_succ (h : scanner.InFrontOf bs) {n : Nat} {calls : List (Token × LineScanner)}
    (hcalls : (scanner.behind (nextToken scanner.state bs)).nextCalls n = .ok calls) :
    scanner.nextCalls (n + 1) = .ok (((nextToken scanner.state bs).1,
      scanner.behind (nextToken scanner.state bs)) :: calls) := by
  rw [nextCalls, h.next, ok_bind]
  dsimp only
  rw [hcalls, ok_bind]
  rfl

/-! ## Any number of calls -/

/-- **What calls have given and what they leave.**  The scanner has gone over text and
stands in front of the rest, and the tokens that the calls have given come in front
of those of the rest. -/
theorem calls (h : scanner.InFrontOf bs) (n : Nat) :
    ∃ calls final front rest, scanner.nextCalls n = .ok calls ∧
      (scanner :: calls.map Prod.snd).getLast? = some final ∧
      bs = front ++ rest ∧ IsText front ∧ final.InFrontOf rest ∧
      final.cursor.pos = scanner.cursor.pos + front.length ∧
      tokens scanner.state bs =
        ((calls.map Prod.fst).filter (·.tag ≠ .eol) ++ (tokens final.state rest).1,
          (tokens final.state rest).2) := by
  induction n generalizing scanner bs with
  | zero => exact ⟨[], scanner, [], bs, rfl, rfl, rfl, isText_nil, h, rfl, rfl⟩
  | succ n ih =>
    obtain ⟨calls, final, front, rest, hcalls, hlast, hbs, hfront, hfinal, hpos, htokens⟩ :=
      ih h.behind
    have hcut := isCut_nextToken h.isText scanner.state
    refine ⟨_, final, bs.take (nextToken scanner.state bs).1.length ++ front, rest,
      h.nextCalls_succ hcalls, ?_, ?_, hcut.2.1.append hfront, hfinal, ?_, ?_⟩
    · rw [← hlast]
      rfl
    · rw [List.append_assoc, ← hbs, List.take_append_drop]
    · rw [hpos, List.length_append, List.length_take, Nat.min_eq_left hcut.1]
      exact Nat.add_assoc _ _ _
    · have hrest : tokens (nextToken scanner.state bs).2 _ = _ := htokens
      rw [tokens_eq_nextToken, hrest, List.map_cons, ← List.append_assoc, ← List.filter_append]
      rfl

/-- **The future of a scan.**  In the same state and in front of the same bytes two
scanners go on alike, whatever their lines were before. -/
theorem nextCalls_eq (h : scanner.InFrontOf bs) (h' : scanner'.InFrontOf bs)
    (hstate : scanner.state = scanner'.state) {pos pos' gone : Nat}
    (hpos : scanner.cursor.pos = pos + gone) (hpos' : scanner'.cursor.pos = pos' + gone)
    (n : Nat) :
    ∃ calls calls', scanner.nextCalls n = .ok calls ∧ scanner'.nextCalls n = .ok calls' ∧
      calls.map (shownFrom pos) = calls'.map (shownFrom pos') := by
  induction n generalizing scanner scanner' bs gone with
  | zero => exact ⟨[], [], rfl, rfl, rfl⟩
  | succ n ih =>
    have hnext := h'.behind
    have hsucc : ∀ {calls}, (scanner'.behind (nextToken scanner.state bs)).nextCalls n = .ok calls →
        scanner'.nextCalls (n + 1) = .ok (((nextToken scanner.state bs).1,
          scanner'.behind (nextToken scanner.state bs)) :: calls) := by
      rw [hstate]
      exact h'.nextCalls_succ
    rw [← hstate] at hnext
    have hcome : ∀ {c : LineScanner} {p : Nat}, c.cursor.pos = p + gone →
        (c.behind (nextToken scanner.state bs)).cursor.pos
          = p + (gone + (nextToken scanner.state bs).1.length) := by
      intro c p hc
      rw [← Nat.add_assoc, ← hc]
      rfl
    obtain ⟨calls, calls', hcalls, hcalls', hshown⟩ :=
      ih h.behind hnext rfl (hcome hpos) (hcome hpos')
    refine ⟨_, _, h.nextCalls_succ hcalls, hsucc hcalls', ?_⟩
    rw [List.map_cons, List.map_cons, hshown]
    congr 1
    show (_, _, _) = (_, _, _)
    rw [hcome hpos, hcome hpos', Nat.add_sub_cancel_left, Nat.add_sub_cancel_left]
    rfl

end InFrontOf

/-! ## The rest as a line of its own -/

/-- `calls` are the results of the first `n` calls on a line that is entered in a
state, `scanner` is the scanner behind them, and `rest` is what is left of the line
from its position on. -/
def Midline (state : ScanState) (line : String) (n : Nat) (calls : List (Token × LineScanner))
    (scanner : LineScanner) (rest : String) : Prop :=
  ∃ start front, ofLine line state = .ok start ∧ start.nextCalls n = .ok calls ∧
    (start :: calls.map Prod.snd).getLast? = some scanner ∧
    line = front ++ rest ∧ scanner.cursor.pos = front.utf8ByteSize

/-- Text in front of text is a beginning of the line. -/
theorem exists_append {line : String} {front rest : List Byte} (hline : bytes line = front ++ rest)
    (hfront : IsText front) (hrest : IsText rest) :
    ∃ s t, line = s ++ t ∧ bytes s = front ∧ bytes t = rest := by
  obtain ⟨s, rfl⟩ := hfront.exists_bytes
  obtain ⟨t, rfl⟩ := hrest.exists_bytes
  rw [← bytes_append] at hline
  exact ⟨s, t, eq_of_bytes_eq hline, rfl, rfl⟩

/-- A line that fits can be left behind any number of calls, and there the tokens that
are still to come are those of the rest. -/
theorem exists_midline {line : String} (fits : line.utf8ByteSize < 2 ^ 32) (state : ScanState)
    (n : Nat) :
    ∃ calls scanner rest, Midline state line n calls scanner rest ∧
      scanner.InFrontOf (bytes rest) ∧
      tokens state (bytes line) =
        ((calls.map Prod.fst).filter (·.tag ≠ .eol) ++ (tokens scanner.state (bytes rest)).1,
          (tokens scanner.state (bytes rest)).2) := by
  obtain ⟨calls, scanner, front, rest, hcalls, hlast, hline, hfront, hat, hpos, htokens⟩ :=
    (inFrontOf_ofLine fits state).calls n
  obtain ⟨s, t, happend, rfl, rfl⟩ := exists_append hline hfront hat.isText
  refine ⟨calls, scanner, t, ⟨_, s, ofLine_eq fits state, hcalls, hlast, happend, ?_⟩, hat, htokens⟩
  rw [hpos]
  exact Nat.zero_add _

/-- In the middle of a line the scanner stands in front of the rest. -/
theorem Midline.inFrontOf {state : ScanState} {line : String} {n : Nat}
    {calls : List (Token × LineScanner)} {scanner : LineScanner} {rest : String}
    (h : Midline state line n calls scanner rest) (fits : line.utf8ByteSize < 2 ^ 32) :
    scanner.InFrontOf (bytes rest) := by
  obtain ⟨start, front, hopened, hcalls, hlast, hline, hpos⟩ := h
  obtain ⟨calls', scanner', rest', hmid', hat, -⟩ := exists_midline fits state n
  obtain ⟨start', front', hopened', hcalls', hlast', hline', hpos'⟩ := hmid'
  rw [hopened] at hopened'
  cases hopened'
  rw [hcalls] at hcalls'
  cases hcalls'
  rw [hlast] at hlast'
  cases hlast'
  -- Both rests begin at the position of the scanner.
  have happend : bytes front ++ bytes rest = bytes front' ++ bytes rest' := by
    rw [← bytes_append, ← bytes_append, ← hline, hline']
  have hlen : (bytes front).length = (bytes front').length := by
    rw [length_bytes, length_bytes, ← hpos, hpos']
  rw [(List.append_inj happend hlen).2]
  exact hat

/-- A line shorter by its front fits as well. -/
theorem Midline.fits {state : ScanState} {line : String} {n : Nat}
    {calls : List (Token × LineScanner)} {scanner : LineScanner} {rest : String}
    (h : Midline state line n calls scanner rest) (fits : line.utf8ByteSize < 2 ^ 32) :
    rest.utf8ByteSize < 2 ^ 32 := by
  obtain ⟨_, front, -, -, -, rfl, -⟩ := h
  rw [← length_bytes, bytes_append, List.length_append] at fits
  rw [← length_bytes]
  omega

end LineScanner

open LineScanner

/-- **Going on in the middle of a line.**  Behind any number of calls the rest of the
line, on a line of its own that is entered in the state there, has just the tokens
that the scanner has still to give, and leaves the same state; they come behind those
that the calls have given.  What a scan gives from some place on depends on the state
and the rest only: in the same state and in front of the same rest, scanners on
any two lines give the same tokens and states in the same distances.  The lines have to
fit into a buffer; of a longer one the buffer has no more than the bytes up to the largest
position, so that its rest is not what a scanner has still to come through. -/
theorem resume_midline :
    (∀ (state : ScanState) (line : String) (n : Nat), line.utf8ByteSize < 2 ^ 32 →
      ∃ calls scanner rest tokens final, Midline state line n calls scanner rest ∧
        tokenizeLine scanner.state rest = .ok (tokens, final) ∧
        scanner.collect #[] = .ok (tokens.toArray, final) ∧
        tokenizeLine state line
          = .ok ((calls.map Prod.fst).filter (·.tag ≠ .eol) ++ tokens, final)) ∧
    ∀ {state state' : ScanState} {line line' rest : String} {n n' : Nat}
      {calls calls' : List (Token × LineScanner)} {scanner scanner' : LineScanner},
      line.utf8ByteSize < 2 ^ 32 → line'.utf8ByteSize < 2 ^ 32 →
      Midline state line n calls scanner rest → Midline state' line' n' calls' scanner' rest →
      scanner.state = scanner'.state →
      ∀ m, ∃ more more', scanner.nextCalls m = .ok more ∧ scanner'.nextCalls m = .ok more' ∧
        more.map (shownFrom scanner.cursor.pos) = more'.map (shownFrom scanner'.cursor.pos) := by
  refine ⟨fun state line n fits => ?_, ?_⟩
  · obtain ⟨calls, scanner, rest, hmid, hat, htokens⟩ := exists_midline fits state n
    refine ⟨calls, scanner, rest, (tokens scanner.state (bytes rest)).1,
      (tokens scanner.state (bytes rest)).2, hmid, tokenizeLine_eq (hmid.fits fits) _, ?_, ?_⟩
    · rw [collect_eq hat.isText scanner.state hat.before]
      rfl
    · rw [tokenizeLine_eq fits, htokens]
  · intro state state' line line' rest n n' calls calls' scanner scanner' fits fits' hmid hmid'
      hstate m
    exact (hmid.inFrontOf fits).nextCalls_eq (hmid'.inFrontOf fits') hstate
      (Nat.add_zero _).symm (Nat.add_zero _).symm m

/-- A number with an exponent is what is left of a line of code and of one that is
entered in a string; behind it nothing more comes. -/
theorem resume_midline_exponent :
    ∃ calls calls' scanner scanner', Midline .start "x 1e-5" 2 calls scanner "1e-5" ∧
      Midline ⟨.string, 0, false⟩ "λ\" 1e-5" 2 calls' scanner' "1e-5" ∧
      scanner.state = scanner'.state ∧
      (∃ more more', scanner.nextCalls 3 = .ok more ∧ scanner'.nextCalls 3 = .ok more' ∧
        more.map (shownFrom scanner.cursor.pos) = more'.map (shownFrom scanner'.cursor.pos)) ∧
      ∃ calls scanner rest tokens final, Midline .start "x 1e-5" 2 calls scanner rest ∧
        tokenizeLine scanner.state rest = .ok (tokens, final) := by
  have fits : "x 1e-5".utf8ByteSize < 2 ^ 32 := by decide
  have fits' : "λ\" 1e-5".utf8ByteSize < 2 ^ 32 := by decide
  have hmid : Midline .start "x 1e-5" 2
      [(⟨.identifier, 1⟩, ⟨⟨LineBuffer.ofLine "x 1e-5", 1⟩, ⟨.base, 0, false⟩⟩),
        (⟨.whitespace, 1⟩, ⟨⟨LineBuffer.ofLine "x 1e-5", 2⟩, ⟨.base, 0, false⟩⟩)]
      ⟨⟨LineBuffer.ofLine "x 1e-5", 2⟩, ⟨.base, 0, false⟩⟩ "1e-5" :=
    ⟨_, "x ", ofLine_eq fits .start, by decide +kernel, rfl, rfl, rfl⟩
  have hmid' : Midline ⟨.string, 0, false⟩ "λ\" 1e-5" 2
      [(⟨.string, 3⟩, ⟨⟨LineBuffer.ofLine "λ\" 1e-5", 3⟩, ⟨.base, 0, false⟩⟩),
        (⟨.whitespace, 1⟩, ⟨⟨LineBuffer.ofLine "λ\" 1e-5", 4⟩, ⟨.base, 0, false⟩⟩)]
      ⟨⟨LineBuffer.ofLine "λ\" 1e-5", 4⟩, ⟨.base, 0, false⟩⟩ "1e-5" :=
    ⟨_, "λ\" ", ofLine_eq fits' _, by decide +kernel, rfl, rfl, rfl⟩
  obtain ⟨calls, scanner, rest, tokens, final, hopened, htokens, -⟩ :=
    resume_midline.1 .start "x 1e-5" 2 fits
  exact ⟨_, _, _, _, hmid, hmid', rfl, resume_midline.2 fits fits' hmid hmid' rfl 3,
    calls, scanner, rest, tokens, final, hopened, htokens⟩

end OCamlHighlight
