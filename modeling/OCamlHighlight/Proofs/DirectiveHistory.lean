/-
# Where a directive may start

A hash before a word begins a directive only where no token of code has come since the
last `;;`.  The scanner keeps one flag for this.  It is set by `;;`, cleared by the other
tokens of code, and carried over line ends and through literals.  Here the flag is
compared with everything that has been scanned before.

* `LineScanner.Reads history scanner`: a document is scanned from the top, the scanner
  has come up there, and `history` are the tokens that it has taken, over all lines.
* `StartAllowed history`: behind the last `;;` there are only blanks, comments and plain
  characters.
* `atLineStart_of_step?` is what one token does to the flag, and `tag_of_hash` what the
  flag does to a hash.  `Reads.atLineStart_iff` is the law for whole histories, and
  `directives_follow_history` puts it together.
-/
import OCamlHighlight.Proofs.ConsistentState

namespace OCamlHighlight

open Byte Extent

/-! ## Histories -/

/-- A token with its bytes. -/
structure Taken where
  tag : Tag
  text : List Byte
  deriving DecidableEq, Repr

/-- The token at the front of some bytes. -/
def Taken.of (bs : List Byte) (token : Token) : Taken := ⟨token.tag, bs.take token.length⟩

/-- Whether this is the separator `;;`, and not one inside of a literal. -/
def Taken.isSeparator (taken : Taken) : Bool :=
  taken.tag == .plain && taken.text == [semicolon, semicolon]

/-- The tags that a directive may come behind if it could have come before them. -/
def Tag.keepsStart : Tag → Bool
  | whitespace | comment | plain => true
  | _ => false

/-- The tokens since the last separator, or since the start of the document. -/
def sinceSeparator (history : List Taken) : List Taken :=
  history.rtakeWhile (!·.isSeparator)

/-- A directive may come behind these tokens. -/
def StartAllowed (history : List Taken) : Prop :=
  ∀ taken ∈ sinceSeparator history, taken.tag.keepsStart = true

instance (history : List Taken) : Decidable (StartAllowed history) :=
  inferInstanceAs (Decidable (∀ taken ∈ sinceSeparator history, taken.tag.keepsStart = true))

/-- A directive may come first in a document. -/
theorem startAllowed_nil : StartAllowed [] := by
  intro taken hmem
  cases hmem

/-- **One token more.**  A separator lets a directive come behind it, and other tokens do so
if they are of the right kind and a directive could have come before them. -/
theorem startAllowed_concat (history : List Taken) (taken : Taken) :
    StartAllowed (history ++ [taken]) ↔
      taken.isSeparator = true ∨ StartAllowed history ∧ taken.tag.keepsStart = true := by
  unfold StartAllowed sinceSeparator
  rw [List.rtakeWhile_concat]
  -- A separator leaves no tokens behind it, and the condition holds of all of them.
  cases hsep : taken.isSeparator with
  | true => simp
  | false => simp [or_imp, forall_and]

/-! ## One token -/

section Steps

variable {state inside : ScanState} {b : Byte} {rest bs : List Byte} {step : Step} {opening : Nat}

/-- The flag does not change inside a literal. -/
theorem atLineStart_bodyFrom (n : Nat) (state : ScanState) (bs : List Byte) :
    (bodyFrom n state bs).2.atLineStart = state.atLineStart := by
  have hclose : ∀ closed : Bool,
      (if closed then state.toBase else state).atLineStart = state.atLineStart := by
    intro closed
    cases closed with
    | true => rfl
    | false => rfl
  cases hm : state.mode with
  | base => rw [bodyFrom_base _ _ hm]
  | string =>
    rw [bodyFrom_string _ _ hm]
    exact hclose _
  | rawString =>
    rw [bodyFrom_rawString _ _ hm]
    exact hclose _
  | comment =>
    rw [bodyFrom_comment _ _ hm]
    rfl

/-- A string clears the flag, and a comment leaves it as it is.  A string that was open
before has cleared it already. -/
theorem atLineStart_literalAt (hc : state.Consistent)
    (hat : literalAt state b rest = some (opening, inside)) :
    inside.atLineStart = (state.atLineStart && inside.mode.bodyTag.keepsStart) := by
  unfold literalAt at hat
  by_cases hm : state.mode = .base
  · rw [if_pos hm] at hat
    cases hrule : Rule.select state.atLineStart b rest.head? with
    | string | rawString =>
      rw [hrule] at hat
      obtain ⟨-, rfl⟩ := Prod.mk.inj (Option.some.inj hat)
      exact (Bool.and_false _).symm
    | comment =>
      rw [hrule] at hat
      obtain ⟨-, rfl⟩ := Prod.mk.inj (Option.some.inj hat)
      exact (Bool.and_true _).symm
    | _ =>
      rw [hrule] at hat
      cases hat
  · rw [if_neg hm] at hat
    obtain ⟨-, rfl⟩ := Prod.mk.inj (Option.some.inj hat)
    cases hmode : state.mode with
    | base => exact absurd hmode hm
    | string =>
      rw [hc.notAtLineStart (Or.inl hmode)]
      rfl
    | rawString =>
      rw [hc.notAtLineStart (Or.inr hmode)]
      rfl
    | comment => exact (Bool.and_true _).symm

/-- The separator begins with a semicolon. -/
theorem Rule.first_of_separator {atLineStart : Bool} {second : Option Byte}
    (h : select atLineStart b second = .separator) : b = semicolon := by
  unfold select at h
  grind

/-- A character that stands alone is no separator. -/
theorem isSeparator_character (b : Byte) (rest : List Byte) :
    (Taken.of (b :: rest) ⟨.plain, charWidth b⟩).isSeparator = false := by
  rw [Taken.of, Taken.isSeparator, Bool.and_eq_false_iff]
  refine Or.inr (beq_eq_false_iff_ne.mpr fun htext => ?_)
  dsimp only at htext
  -- A separator would begin with a semicolon, which has a single byte.
  have hb : b = semicolon := by
    have hhead := congrArg List.head? htext
    rw [List.head?_take, if_neg (charWidth_pos b).ne'] at hhead
    exact Option.some.inj hhead
  have hlen := congrArg List.length htext
  rw [hb, charWidth_of_ascii semicolon rfl] at hlen
  simp at hlen

/-- What a lexeme does to the flag. -/
theorem atLineStart_lexeme (hat : literalAt state b rest = none) :
    let step := (Rule.select state.atLineStart b rest.head?).lexeme state b rest
    step.state.atLineStart = true ↔
      (Taken.of (b :: rest) step.token).isSeparator = true ∨
        state.atLineStart = true ∧ step.token.tag.keepsStart = true := by
  -- A token that clears the flag is neither plain nor one that keeps it.
  have hclears : ∀ (tag : Tag) (n : Nat), tag ≠ .plain → tag.keepsStart = false →
      (false = true ↔ (Taken.of (b :: rest) ⟨tag, n⟩).isSeparator = true ∨
        state.atLineStart = true ∧ tag.keepsStart = true) := by
    intro tag n hplain hkeeps
    simp [Taken.isSeparator, Taken.of, hplain, hkeeps]
  intro step
  cases hrule : Rule.select state.atLineStart b rest.head? with
  | separator =>
    obtain ⟨rest, rfl⟩ := List.head?_eq_some_iff.mp (Rule.select_separator hrule)
    obtain rfl := Rule.first_of_separator hrule
    simp only [step, hrule]
    exact iff_of_true rfl (Or.inl rfl)
  | word =>
    simp only [step, hrule]
    have htag := Word.tag_mem ((b :: rest).take (1 + run isIdentifier rest))
    refine hclears _ _ (ne_of_mem_of_not_mem htag (by decide)) ?_
    generalize Word.tag _ = tag at htag
    revert tag
    decide
  | constructor | number | directive | operator =>
    simp only [step, hrule]
    exact hclears _ _ (by decide) rfl
  | other =>
    simp only [step, hrule]
    show state.atLineStart = true ↔
      (Taken.of (b :: rest) ⟨.plain, charWidth b⟩).isSeparator = true ∨
        state.atLineStart = true ∧ true = true
    rw [isSeparator_character]
    simp
  | string | rawString | comment =>
    rw [literalAt, if_pos (base_of_literalAt_eq_none hat), hrule] at hat
    cases hat

/-- **What a token does to the flag.** -/
theorem atLineStart_of_step? (hc : state.Consistent) (hs : step? state bs = some step) :
    step.state.atLineStart = true ↔
      (Taken.of bs step.token).isSeparator = true ∨
        state.atLineStart = true ∧ step.token.tag.keepsStart = true := by
  cases bs with
  | nil => cases hs
  | cons b rest =>
    cases shape_of_step? hs with
    | blanks =>
      show state.atLineStart = true ↔ false = true ∨ state.atLineStart = true ∧ true = true
      simp
    | literal opening inside _ hat =>
      have hplain : inside.mode.bodyTag ≠ .plain := inside.mode.bodyTag_ne (by decide) (by decide)
      show (bodyFrom opening inside ((b :: rest).drop opening)).2.atLineStart = true ↔ _
      rw [atLineStart_bodyFrom, atLineStart_literalAt hc hat]
      show _ ↔ (inside.mode.bodyTag == .plain && _) = true ∨
        state.atLineStart = true ∧ inside.mode.bodyTag.keepsStart = true
      rw [beq_eq_false_iff_ne.mpr hplain, Bool.and_eq_true]
      simp
    | lexeme _ hat => exact atLineStart_lexeme hat

/-- The rule for a hash. -/
theorem Rule.select_hash (atLineStart : Bool) (second : Option Byte) :
    select atLineStart hash second =
      if atLineStart = true ∧ second.any isWord = true then .directive else .operator := by
  unfold select
  simp only [show hash ≠ semicolon by decide, show hash ≠ quote by decide,
    show hash ≠ openBrace by decide, show hash ≠ openParen by decide,
    show hash ≠ backquote by decide, show isUpper hash = false by decide,
    show isLower hash = false by decide, show hash ≠ underscore by decide,
    show isDigit hash = false by decide, show isOperatorStart hash = true by decide,
    false_and, if_false, or_false, Bool.false_eq_true, true_and, if_true]

/-- **A hash outside of strings and comments** begins a directive or an operator. -/
theorem tag_of_hash (hs : step? state (hash :: rest) = some step)
    (hstring : step.token.tag ≠ .string) (hcomment : step.token.tag ≠ .comment) :
    step.token.tag =
      if state.atLineStart = true ∧ rest.head?.any isWord = true then .atom else .operator := by
  cases shape_of_step? hs with
  | blanks hb => cases hb
  | literal opening inside => exact absurd rfl (inside.mode.bodyTag_ne hstring hcomment)
  | lexeme =>
    rw [Rule.select_hash]
    split
    · rfl
    · rfl

end Steps

/-! ## A scan of a document -/

namespace LineScanner

/-- The bytes of its line that the scanner has still to take. -/
def left (scanner : LineScanner) : List Byte :=
  scanner.cursor.buffer.content.drop scanner.cursor.pos

/-- The scanners that come up while the lines of a document are scanned from the top, each
with the tokens that have been taken before: at the start of the first line, behind every
call that takes a token, and at the start of the line after one that is used up. -/
inductive Reads : List Taken → LineScanner → Prop
  | first {line : String} {scanner : LineScanner} (opened : ofLine line .start = .ok scanner) :
    Reads [] scanner
  | call {history : List Taken} {scanner next : LineScanner} {token : Token}
    (reads : Reads history scanner) (called : scanner.next = .ok (token, next))
    (notEol : token.tag ≠ .eol) : Reads (history ++ [.of scanner.left token]) next
  | line {history : List Taken} {scanner next : LineScanner} {line : String}
    (reads : Reads history scanner) (ended : scanner.next = .ok (Token.eol, scanner))
    (opened : ofLine line scanner.state = .ok next) : Reads history next

variable {history : List Taken} {scanner : LineScanner} {c : Cursor} {bs : List Byte}

/-- What is left of its line is what the cursor stands before. -/
theorem left_of_before (h : scanner.cursor.Before bs) : scanner.left = bs := by
  obtain ⟨tail, htail⟩ := h.storage_eq
  have hlen : scanner.cursor.buffer.length - scanner.cursor.pos = bs.length := h.remaining
  rw [left, LineBuffer.content, Array.toList_extract, List.extract_eq_take_drop, List.drop_zero,
    Nat.sub_zero, List.drop_take, hlen, htail]
  exact List.take_left' rfl

theorem Reads.reached (h : Reads history scanner) : Reached scanner := by
  induction h with
  | first opened => exact .first opened
  | call _ called _ ih => exact .call ih called
  | line _ _ opened ih => exact .line ih opened

theorem Reads.onLine (h : Reads history scanner) : ∃ bs, scanner.cursor.OnLine bs := by
  induction h with
  | first opened => exact ⟨_, (onLine_of_ofLine opened).2⟩
  | call _ called notEol ih =>
    obtain ⟨bs, hat⟩ := ih
    rcases onLine_of_next hat called with ⟨-, hcall⟩ | ⟨step, -, hcall, hnext⟩
    · cases hcall
      exact absurd rfl notEol
    · cases hcall
      exact ⟨_, hnext⟩
  | line _ _ opened => exact ⟨_, (onLine_of_ofLine opened).2⟩

/-- A call that is not at the end of the line is a step on what is left of it. -/
theorem Reads.exists_step? (h : Reads history scanner) {token : Token} {next : LineScanner}
    (called : scanner.next = .ok (token, next)) (notEnd : token ≠ Token.eol) :
    ∃ step, step? scanner.state scanner.left = some step ∧ token = step.token ∧
      next.state = step.state := by
  obtain ⟨bs, hat⟩ := h.onLine
  rcases onLine_of_next hat called with ⟨-, hcall⟩ | ⟨step, hs, hcall, -⟩
  · cases hcall
    exact absurd rfl notEnd
  · cases hcall
    rw [left_of_before hat.before]
    exact ⟨step, hs, rfl, rfl⟩

/-- **The flag tells the history.** -/
theorem Reads.atLineStart_iff (h : Reads history scanner) :
    scanner.state.atLineStart = true ↔ StartAllowed history := by
  induction h with
  | first opened =>
    rw [state_of_ofLine opened]
    exact iff_of_true rfl startAllowed_nil
  | call reads called notEol ih =>
    obtain ⟨step, hs, rfl, hstate⟩ :=
      reads.exists_step? called fun hend => notEol (congrArg Token.tag hend)
    rw [hstate, startAllowed_concat, ← ih]
    exact atLineStart_of_step? reads.reached.consistent hs
  | line _ _ opened ih =>
    rw [state_of_ofLine opened]
    exact ih

/-- **The history tells a hash.** -/
theorem Reads.tag_eq (h : Reads history scanner) {token : Token} {next : LineScanner}
    (called : scanner.next = .ok (token, next))
    (begins : (Taken.of scanner.left token).text.head? = some hash)
    (notString : token.tag ≠ .string) (notComment : token.tag ≠ .comment) :
    token.tag =
      if scanner.left[1]?.any isWord = true ∧ StartAllowed history then .atom else .operator := by
  have hhead : token.length ≠ 0 ∧ scanner.left.head? = some hash := by
    rw [Taken.of, List.head?_take] at begins
    split at begins
    · cases begins
    · exact ⟨‹_›, begins⟩
  have notEnd : token ≠ Token.eol := fun hend => hhead.1 (congrArg Token.length hend)
  obtain ⟨step, hs, rfl, -⟩ := h.exists_step? called notEnd
  obtain ⟨rest, hleft⟩ := List.head?_eq_some_iff.mp hhead.2
  rw [hleft] at hs ⊢
  rw [tag_of_hash hs notString notComment, List.getElem?_cons_succ, ← List.head?_eq_getElem?]
  simp only [h.atLineStart_iff, and_comm]

/-! ## Every token of a document -/

/-- The tokens of a line, each with its bytes. -/
def takenFrom : List Token → List Byte → List Taken
  | [], _ => []
  | token :: tokens, bs => .of bs token :: takenFrom tokens (bs.drop token.length)

/-- The tokens of lines, as a scan of the lines has given them, each with its bytes. -/
def historyOf (lines : List String) (results : List (List Token × ScanState)) : List Taken :=
  (List.zipWith (fun line result => takenFrom result.1 (bytes line)) lines results).flatten

/-- Behind the tokens of a history, each of these is what a call gives to a scanner that has
taken those in front of it. -/
def Gives (history more : List Taken) : Prop :=
  ∀ front taken back, more = front ++ taken :: back →
    ∃ scanner token next, Reads (history ++ front) scanner ∧
      scanner.next = .ok (token, next) ∧ Taken.of scanner.left token = taken

theorem gives_nil (history : List Taken) : Gives history [] := by
  intro front taken back hnil
  exact absurd hnil.symm (List.append_ne_nil_of_right_ne_nil front (List.cons_ne_nil taken back))

theorem Reads.gives_cons (h : Reads history scanner) {token : Token} {next : LineScanner}
    (called : scanner.next = .ok (token, next)) {more : List Taken}
    (hmore : Gives (history ++ [.of scanner.left token]) more) :
    Gives history (.of scanner.left token :: more) := by
  intro front taken back hsplit
  cases front with
  | nil =>
    obtain ⟨rfl, -⟩ := List.cons.inj hsplit
    rw [List.append_nil]
    exact ⟨scanner, token, next, h, called, rfl⟩
  | cons first front =>
    obtain ⟨rfl, hrest⟩ := List.cons.inj hsplit
    rw [List.append_cons]
    exact hmore front taken back hrest

/-- **The rest of a line.**  The scanner takes its tokens one after the other and comes to
the end of the line. -/
theorem Reads.exists_end {state : ScanState} (ht : IsText bs) (hat : c.Before bs)
    (h : Reads history ⟨c, state⟩) :
    ∃ final, Reads (history ++ takenFrom (tokens state bs).1 bs) final ∧
      final.state = (tokens state bs).2 ∧ final.next = .ok (Token.eol, final) ∧
      ∀ more, Gives (history ++ takenFrom (tokens state bs).1 bs) more →
        Gives history (takenFrom (tokens state bs).1 bs ++ more) := by
  induction state, bs, ht using scan_induction generalizing c history with
  | nil state =>
    rw [tokens_nil, takenFrom, List.append_nil]
    exact ⟨_, h, rfl, next_nil hat state, fun _ => id⟩
  | cons state bs step ht hs ih =>
    -- The token goes from what is left to the history, where the rest of the line begins.
    have hcall := next_of_step? hat ht hs
    have hreads := h.call hcall (tag_of_step? hs)
    have hleft : left ⟨c, state⟩ = bs := left_of_before hat
    obtain ⟨final, hfinal, hstate, hend, hgives⟩ := ih (before_rest hat ht hs) hreads
    rw [tokens_of_step? hs, takenFrom, ← rest_of_step? hs, List.append_cons]
    rw [hleft] at hfinal hgives
    refine ⟨final, hfinal, hstate, hend, fun more hmore => ?_⟩
    rw [List.cons_append, ← hleft]
    refine h.gives_cons hcall ?_
    rw [hleft]
    exact hgives more hmore

/-- **Lines that fit are read to their end.** -/
theorem exists_gives {lines : List String} {state : ScanState}
    (fits : ∀ line ∈ lines, line.utf8ByteSize < 2 ^ 32)
    (h : ∀ line : String, line.utf8ByteSize < 2 ^ 32 →
      Reads history ⟨⟨LineBuffer.ofLine line, 0⟩, state⟩) :
    ∃ results, tokenizeLines state lines = .ok results ∧
      Gives history (historyOf lines results) := by
  induction lines generalizing history state with
  | nil => exact ⟨[], rfl, gives_nil history⟩
  | cons line lines ih =>
    obtain ⟨hline, hlines⟩ := List.forall_mem_cons.mp fits
    obtain ⟨final, hfinal, hstate, hend, hgives⟩ :=
      (h line hline).exists_end (isText_bytes line) (before_ofLine hline)
    -- The lines below are read from the scanner at the end of this one.
    obtain ⟨results, hresults, hmore⟩ := ih hlines fun below hbelow =>
      hfinal.line hend (by rw [hstate]; exact ofLine_eq hbelow _)
    refine ⟨tokens state (bytes line) :: results, ?_, hgives _ hmore⟩
    rw [tokenizeLines, tokenizeLine_eq hline, ok_bind]
    dsimp only
    rw [hresults]
    rfl

end LineScanner

open LineScanner

/-- **Directives follow the history.**  While a document is scanned from the top, over any
number of lines, the flag is set at a token boundary exactly if only blanks, comments and
plain tokens have come since the last `;;` or since the start.  A token that begins with a
hash and is no string and no comment has the tag of a directive if a word byte follows the
hash on its line and the tokens before it are of this kind, and that of an operator
otherwise.  In a document whose lines fit into a buffer these are all the tokens. -/
theorem directives_follow_history :
    (∀ {history : List Taken} {scanner : LineScanner}, Reads history scanner →
      (scanner.state.atLineStart = true ↔ StartAllowed history)) ∧
    (∀ {history : List Taken} {scanner next : LineScanner} {token : Token},
      Reads history scanner → scanner.next = .ok (token, next) →
      (Taken.of scanner.left token).text.head? = some hash →
      token.tag ≠ .string → token.tag ≠ .comment →
      token.tag =
        if scanner.left[1]?.any isWord = true ∧ StartAllowed history then .atom
        else .operator) ∧
    ∀ lines : List String, (∀ line ∈ lines, line.utf8ByteSize < 2 ^ 32) →
      ∃ results, tokenizeLines .start lines = .ok results ∧
        ∀ front taken back, historyOf lines results = front ++ taken :: back →
          ∃ scanner token next, Reads front scanner ∧ scanner.next = .ok (token, next) ∧
            Taken.of scanner.left token = taken := by
  refine ⟨fun h => h.atLineStart_iff, fun h => h.tag_eq, fun lines fits => ?_⟩
  obtain ⟨results, hresults, hgives⟩ :=
    exists_gives fits fun line hline => .first (ofLine_eq hline .start)
  exact ⟨results, hresults, hgives⟩

/-- Behind `;;` and a comment over a line end there is a directive; behind it and a string
with another `;;` there is an operator. -/
theorem directives_follow_history_comment :
    (∃ scanner token next,
      Reads [⟨.keyword, bytes "let"⟩, ⟨.plain, bytes ";;"⟩, ⟨.comment, bytes "(* "⟩,
        ⟨.comment, bytes "; *)"⟩] scanner ∧
      scanner.next = .ok (token, next) ∧ Taken.of scanner.left token = ⟨.atom, bytes "#use"⟩ ∧
      scanner.state.atLineStart = true ∧ scanner.left[1]?.any isWord = true) ∧
    ∃ scanner token next,
      Reads [⟨.keyword, bytes "let"⟩, ⟨.plain, bytes ";;"⟩, ⟨.comment, bytes "(* "⟩,
        ⟨.comment, bytes "; *)"⟩, ⟨.atom, bytes "#use"⟩, ⟨.string, bytes "\"#;;\""⟩] scanner ∧
      scanner.next = .ok (token, next) ∧ Taken.of scanner.left token = ⟨.operator, bytes "#"⟩ ∧
      scanner.state.atLineStart = false := by
  have hline : tokenizeLines .start ["let;;(* ", "; *)#use\"#;;\"#c"] =
      .ok [([⟨.keyword, 3⟩, ⟨.plain, 2⟩, ⟨.comment, 3⟩], ⟨.comment, 1, true⟩),
        ([⟨.comment, 4⟩, ⟨.atom, 4⟩, ⟨.string, 5⟩, ⟨.operator, 1⟩, ⟨.identifier, 1⟩],
          ⟨.base, 0, false⟩)] := by
    decide +kernel
  obtain ⟨results, hresults, hgives⟩ :=
    directives_follow_history.2.2 ["let;;(* ", "; *)#use\"#;;\"#c"] (by decide)
  rw [hline] at hresults
  cases hresults
  constructor
  · obtain ⟨scanner, token, next, hreads, hcalled, htaken⟩ :=
      hgives [⟨.keyword, bytes "let"⟩, ⟨.plain, bytes ";;"⟩, ⟨.comment, bytes "(* "⟩,
        ⟨.comment, bytes "; *)"⟩] ⟨.atom, bytes "#use"⟩
        [⟨.string, bytes "\"#;;\""⟩, ⟨.operator, bytes "#"⟩, ⟨.identifier, bytes "c"⟩]
        (by decide +kernel)
    have htag : token.tag = .atom := congrArg Taken.tag htaken
    have hdirective := directives_follow_history.2.1 hreads hcalled
      (by rw [htaken]; decide +kernel) (by rw [htag]; decide) (by rw [htag]; decide)
    rw [htag] at hdirective
    split at hdirective
    case isTrue hcond =>
      exact ⟨scanner, token, next, hreads, hcalled, htaken,
        (directives_follow_history.1 hreads).mpr hcond.2, hcond.1⟩
    case isFalse => cases hdirective
  · obtain ⟨scanner, token, next, hreads, hcalled, htaken⟩ :=
      hgives [⟨.keyword, bytes "let"⟩, ⟨.plain, bytes ";;"⟩, ⟨.comment, bytes "(* "⟩,
        ⟨.comment, bytes "; *)"⟩, ⟨.atom, bytes "#use"⟩, ⟨.string, bytes "\"#;;\""⟩]
        ⟨.operator, bytes "#"⟩ [⟨.identifier, bytes "c"⟩] (by decide +kernel)
    refine ⟨scanner, token, next, hreads, hcalled, htaken, Bool.eq_false_iff.mpr fun hflag => ?_⟩
    exact absurd ((directives_follow_history.1 hreads).mp hflag) (by decide +kernel)

end OCamlHighlight
