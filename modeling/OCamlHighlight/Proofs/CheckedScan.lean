/-
# The checked scanner takes the tokens of a line

A `LineScanner` reads its line through the checked cursor.  Where the cursor
stands before text, a call of `next` is one step on the bytes that are left: the
same token, the same state, and the cursor behind the token.

Main facts:

* `next_of_step?`: one call is one step, and so it is where a line is cut off at the
  largest position (`onLine_of_next`);
* `collect_eq`: the calls up to the end of the line give `tokensFrom`;
* `exists_nextCalls`: at the end of the line every call gives `Token.eol` and
  leaves the scanner where it is.
-/
import OCamlHighlight.Proofs.CheckedCursor
import OCamlHighlight.Proofs.TokenSteps

namespace OCamlHighlight

open Byte Extent

/-- The byte behind the first character decides like the one behind its first
byte. -/
theorem Rule.select_behind (atLineStart : Bool) (b : Byte) (rest : List Byte) :
    select atLineStart b (some (((b :: rest).drop (charWidth b)).headD 0))
      = select atLineStart b rest.head? := by
  by_cases hb : isHigh b = true
  · rw [select_of_isHigh hb, select_of_isHigh hb]
  · rw [Bool.not_eq_true] at hb
    rw [charWidth_of_ascii b hb, List.drop_one, List.tail_cons]
    cases rest with
    | nil => exact select_some atLineStart b (by decide)
    | cons c rest => rfl

namespace LineScanner

/-- The result of taking a step at a cursor. -/
def took (c : Cursor) (step : Step) : Token × LineScanner :=
  (step.token, ⟨c.behind step.token.length, step.state⟩)

section Calls

variable {c : Cursor} {bs : List Byte} {state : ScanState}

/-- A token that ends `n` bytes further on. -/
theorem emit_behind (c : Cursor) (state : ScanState) (tag : Tag) (n : Nat) (next : ScanState)
    (bs : List Byte) :
    emit ⟨c, state⟩ tag (c.behind n) next = .ok (took c (Step.take tag n next bs)) := by
  have hle : c.pos ≤ c.pos + n := Nat.le_add_right _ _
  refine (if_pos hle).trans ?_
  show Except.ok ((⟨tag, c.pos + n - c.pos⟩ : Token), _) = _
  rw [Nat.add_sub_cancel_left]
  rfl

/-- A string, of which `opening` bytes are behind the cursor. -/
theorem string_behind (h : c.Before bs) {opening : Nat} (ho : opening ≤ bs.length)
    (inside : ScanState) :
    string ⟨c, state⟩ (c.behind opening) inside
      = .ok (took c (Step.string inside opening bs)) := by
  have hadd := stringFrom_add opening 0 (bs.drop opening)
  rw [Nat.add_zero] at hadd
  unfold string Step.string
  rw [(h.behind ho).skipString, ok_bind, hadd, Cursor.behind_behind]
  exact emit_behind c state _ _ _ bs

/-- A quoted string, of which `opening` bytes are behind the cursor. -/
theorem rawString_behind (h : c.Before bs) {opening : Nat} (ho : opening ≤ bs.length)
    (inside : ScanState) :
    rawString ⟨c, state⟩ (c.behind opening) inside
      = .ok (took c (Step.rawString inside opening bs)) := by
  have hadd := rawStringFrom_add opening 0 (bs.drop opening)
  rw [Nat.add_zero] at hadd
  unfold rawString Step.rawString
  rw [(h.behind ho).skipRawString, ok_bind, hadd, Cursor.behind_behind]
  exact emit_behind c state _ _ _ bs

/-- A comment, of which `opening` bytes are behind the cursor. -/
theorem comment_behind (h : c.Before bs) {opening : Nat} (ho : opening ≤ bs.length)
    (inside : ScanState) :
    comment ⟨c, state⟩ (c.behind opening) inside
      = .ok (took c (Step.comment inside opening bs)) := by
  have hadd := commentFrom_add opening 0 inside.depth (bs.drop opening)
  rw [Nat.add_zero] at hadd
  unfold comment Step.comment
  rw [(h.behind ho).skipComment, ok_bind, hadd, Cursor.behind_behind]
  exact emit_behind c state _ _ _ bs

/-- **A token of code**, whose first character is whole. -/
theorem code_eq {b : Byte} {rest : List Byte} (h : c.Before (b :: rest))
    (hfirst : charWidth b ≤ (b :: rest).length) :
    code ⟨c, state⟩ = .ok (took c (Step.code state b rest)) := by
  have hrest := h.behind_one
  unfold code Step.code
  dsimp only
  rw [h.current, ok_bind, h.advanceChar hfirst, ok_bind, (h.behind hfirst).current, ok_bind,
    List.headD_cons, Rule.select_behind]
  by_cases hother : Rule.select state.atLineStart b rest.head? = .other
  · rw [hother]
    exact emit_behind c state _ _ _ _
  -- Every other rule begins with an ASCII byte, and the cursor stands behind it.
  rw [charWidth_of_ascii b (Rule.isHigh_of_select hother)]
  cases hrule : Rule.select state.atLineStart b rest.head? with
  | other => exact absurd hrule hother
  | string => exact string_behind h (Nat.le_add_left 1 _) _
  | separator =>
    obtain ⟨rest, rfl⟩ := List.head?_eq_some_iff.mp (Rule.select_separator hrule)
    dsimp only
    rw [hrest.advance, ok_bind, Cursor.behind_behind]
    exact emit_behind c state _ _ _ _
  | rawString =>
    obtain ⟨rest, rfl⟩ := List.head?_eq_some_iff.mp (Rule.select_rawString hrule)
    dsimp only
    rw [hrest.advance, ok_bind, Cursor.behind_behind]
    exact rawString_behind h (Nat.le_add_left 2 _) _
  | comment =>
    obtain ⟨rest, rfl⟩ := List.head?_eq_some_iff.mp (Rule.select_comment hrule)
    dsimp only
    rw [hrest.advance, ok_bind, Cursor.behind_behind]
    exact comment_behind h (Nat.le_add_left 2 _) _
  | number =>
    dsimp only
    rw [h.skipNumber, ok_bind]
    exact emit_behind c state _ _ _ _
  | constructor =>
    dsimp only
    rw [hrest.eatWhile rfl, ok_bind, Cursor.behind_behind]
    exact emit_behind c state _ _ _ _
  | word =>
    dsimp only
    rw [hrest.eatWhile rfl, ok_bind, Cursor.behind_behind,
      h.sliceFrom (one_add_run_le isIdentifier b rest), ok_bind]
    exact emit_behind c state _ _ _ _
  | directive =>
    dsimp only
    rw [hrest.eatWhile rfl, ok_bind, Cursor.behind_behind]
    exact emit_behind c state _ _ _ _
  | operator =>
    dsimp only
    rw [hrest.eatWhile rfl, ok_bind, Cursor.behind_behind]
    exact emit_behind c state _ _ _ _

/-! ## Calls -/

/-- At the end of the line the scanner stays where it is. -/
theorem next_nil (h : c.Before []) (state : ScanState) :
    next ⟨c, state⟩ = .ok (Token.eol, ⟨c, state⟩) := by
  unfold next
  dsimp only
  rw [h.current, ok_bind, h.isAtEnd, ok_bind]
  rfl

/-- One call of the scanner is one step, also where the bytes are no text, as long as
the first character of code is whole. -/
theorem next_of_whole {b : Byte} {rest : List Byte} (h : c.Before (b :: rest))
    (hwhole : state.mode = .base → charWidth b ≤ (b :: rest).length) {step : Step}
    (hs : step? state (b :: rest) = some step) : next ⟨c, state⟩ = .ok (took c step) := by
  unfold step? at hs
  obtain rfl := Option.some.inj hs
  unfold next
  dsimp only
  rw [h.current, ok_bind, h.isAtEnd, ok_bind, List.isEmpty_cons, if_neg Bool.false_ne_true,
    List.headD_cons]
  by_cases hb : isBlank b = true
  · rw [if_pos hb, if_pos hb, Cursor.eatBlanks, h.eatWhile rfl, ok_bind]
    exact emit_behind c state _ _ _ _
  · rw [if_neg hb, if_neg hb]
    cases hm : state.mode with
    | base => exact code_eq h (hwhole hm)
    | string => exact string_behind h (Nat.zero_le _) state
    | rawString => exact rawString_behind h (Nat.zero_le _) state
    | comment => exact comment_behind h (Nat.zero_le _) state

/-- **One call of the scanner is one step.** -/
theorem next_of_step? (h : c.Before bs) (ht : IsText bs) {step : Step}
    (hs : step? state bs = some step) : next ⟨c, state⟩ = .ok (took c step) := by
  cases bs with
  | nil => cases hs
  | cons b rest => exact next_of_whole h (fun _ => ht.first_character.1) hs

/-- The first character of code that the largest position has cut faults. -/
theorem next_of_cut {b : Byte} {rest : List Byte} (h : c.Before (b :: rest))
    (hm : state.mode = .base) (hcut : (b :: rest).length < charWidth b)
    (hfull : c.buffer.length = Cursor.maxPos) :
    next ⟨c, state⟩ = .error .positionOverflow := by
  have hhigh : isHigh b = true := by
    rw [← Bool.not_eq_false]
    intro hb
    rw [charWidth_of_ascii b hb, List.length_cons] at hcut
    omega
  have hblank : ¬ isBlank b = true := by
    intro hb
    rw [not_isHigh b (Or.inl hb)] at hhigh
    cases hhigh
  have hadvance : c.advanceChar = .error .positionOverflow := by
    have hlen := h.length_eq
    unfold Cursor.advanceChar
    rw [h.current, ok_bind, List.headD_cons]
    exact if_neg (by omega)
  unfold next
  dsimp only
  rw [h.current, ok_bind, h.isAtEnd, ok_bind, List.isEmpty_cons, if_neg Bool.false_ne_true,
    List.headD_cons, if_neg hblank, hm]
  unfold code
  dsimp only
  rw [h.current, ok_bind, hadvance]
  rfl

/-- A step leaves the cursor in front of the bytes that it leaves. -/
theorem before_rest (h : c.Before bs) (ht : IsText bs) {step : Step}
    (hs : step? state bs = some step) : (c.behind step.token.length).Before step.rest := by
  rw [rest_of_step? hs]
  exact h.behind (isCut_step? ht hs).1

end Calls

/-! ## Runs -/

/-- The weight of a scanner is that of the bytes that are left. -/
theorem weight_eq {c : Cursor} {bs : List Byte} (h : c.Before bs) (state : ScanState) :
    weight ⟨c, state⟩ = OCamlHighlight.weight state bs := by
  unfold weight OCamlHighlight.weight
  rw [h.remaining]

/-- **The calls up to the end of the line give its tokens.** -/
theorem collect_eq {bs : List Byte} (ht : IsText bs) (state : ScanState) {c : Cursor}
    (h : c.Before bs) (acc : Array Token) :
    collect acc ⟨c, state⟩ = .ok (tokensFrom acc state bs) := by
  induction state, bs, ht using scan_induction generalizing c acc with
  | nil state =>
    rw [collect, next_nil h, ok_bind, tokensFrom_none rfl]
    rfl
  | cons state bs step ht hs ih =>
    have hnext := before_rest h ht hs
    rw [collect, next_of_step? h ht hs, ok_bind, tokensFrom_some hs]
    dsimp only [took]
    rw [if_neg (tag_of_step? hs), if_pos, ih hnext]
    rw [weight_eq h, weight_eq hnext]
    exact weight_step?_lt hs

/-- **Calls beyond the end of the line.**  The calls give the tokens of the line
and then `Token.eol` for ever, from a scanner that stays where it is. -/
theorem exists_nextCalls {bs : List Byte} (ht : IsText bs) (state : ScanState) {c : Cursor}
    (h : c.Before bs) :
    ∃ calls final, calls.map Prod.fst = (tokens state bs).1 ∧
      (⟨c, state⟩ :: calls.map Prod.snd).getLast? = some final ∧
      final = ⟨c.behind bs.length, (tokens state bs).2⟩ ∧
      ∀ n, nextCalls (calls.length + n) ⟨c, state⟩
        = .ok (calls ++ List.replicate n (Token.eol, final)) := by
  induction state, bs, ht using scan_induction generalizing c with
  | nil state =>
    rw [tokens_nil]
    refine ⟨[], ⟨c, state⟩, rfl, rfl, rfl, fun n => ?_⟩
    rw [List.length_nil, Nat.zero_add, List.nil_append]
    -- The scanner is the same after the call, and so is the next call.
    induction n with
    | zero => rfl
    | succ n ih =>
      rw [nextCalls, next_nil h, ok_bind]
      dsimp only
      rw [ih, ok_bind]
      rfl
  | cons state bs step ht hs ih =>
    obtain ⟨calls, final, hfst, hlast, hfinal, hcalls⟩ := ih (before_rest h ht hs)
    have hlen := (isCut_step? ht hs).1
    rw [tokens_of_step? hs]
    refine ⟨took c step :: calls, final, congrArg (step.token :: ·) hfst, ?_, ?_, fun n => ?_⟩
    · rw [← hlast]
      rfl
    · rw [hfinal, Cursor.behind_behind, rest_of_step? hs, List.length_drop,
        Nat.add_sub_cancel' hlen]
    · rw [List.length_cons, Nat.add_right_comm, nextCalls, next_of_step? h ht hs, ok_bind]
      dsimp only [took]
      rw [hcalls n, ok_bind]
      rfl

end LineScanner

/-! ## Lines -/

/-- The cursor at the start of a line stands before as many of its bytes as the buffer
holds. -/
theorem before_take (line : String) :
    (⟨LineBuffer.ofLine line, 0⟩ : Cursor).Before ((bytes line).take LineBuffer.maxLength) := by
  have hlen : (LineBuffer.ofLine line).length = ((bytes line).take LineBuffer.maxLength).length :=
    rfl
  refine ⟨?_, ?_, ?_⟩
  · rw [hlen, Nat.zero_add]
  · rw [hlen]
    exact List.length_take_le _ _
  · have hpad := LineBuffer.lt_storageSize (LineBuffer.ofLine line).length
    have hstorage := LineBuffer.storage_reset LineBuffer.empty line
    obtain ⟨k, hk⟩ := Nat.exists_eq_add_of_lt hpad
    refine ⟨List.replicate k 0, ?_⟩
    rw [List.drop_zero]
    refine hstorage.trans ?_
    show (bytes line).take LineBuffer.maxLength ++
      List.replicate (LineBuffer.storageSize (LineBuffer.ofLine line).length -
        (LineBuffer.ofLine line).length) 0 = _
    rw [hk, Nat.add_assoc, Nat.add_sub_cancel_left]
    rfl

/-- A buffer holds its line up to the largest position. -/
theorem content_ofLine (line : String) :
    (LineBuffer.ofLine line).content = (bytes line).take LineBuffer.maxLength := by
  obtain ⟨tail, htail⟩ := (before_take line).storage_eq
  rw [LineBuffer.content, Array.toList_extract, List.extract_eq_take_drop, htail]
  exact List.take_left' rfl

/-- The cursor stands in front of what is left of a line of any length.  This is text,
unless the line is cut off at the largest position. -/
structure Cursor.OnLine (c : Cursor) (bs : List Byte) : Prop where
  before : c.Before bs
  whole : IsText bs ∨ c.buffer.length = Cursor.maxPos

namespace LineScanner

/-- The scanner at the start of a line of any length. -/
theorem onLine_of_ofLine {line : String} {state : ScanState} {scanner : LineScanner}
    (opened : ofLine line state = .ok scanner) :
    scanner.state = state ∧ scanner.cursor.OnLine ((bytes line).take LineBuffer.maxLength) := by
  obtain ⟨c, hc, h⟩ := bind_eq_ok.mp opened
  cases h
  unfold LineBuffer.cursor at hc
  split at hc
  · cases hc
    refine ⟨rfl, before_take line, ?_⟩
    rcases Nat.le_total (bytes line).length LineBuffer.maxLength with hle | hle
    · rw [List.take_of_length_le hle]
      exact Or.inl (isText_bytes line)
    · exact Or.inr (List.length_take_of_le hle)
  · cases hc

/-- **A call on a line of any length.**  What has a result is the end of the line or a
step, behind which the scanner is on the line again. -/
theorem onLine_of_next {c : Cursor} {bs : List Byte} (h : c.OnLine bs) {state : ScanState}
    {call : Token × LineScanner} (called : next ⟨c, state⟩ = .ok call) :
    (bs = [] ∧ call = (Token.eol, ⟨c, state⟩)) ∨
      ∃ step, step? state bs = some step ∧ call = took c step ∧
        (c.behind step.token.length).OnLine step.rest := by
  cases hs : step? state bs with
  | none =>
    obtain rfl := eq_nil_of_step?_eq_none hs
    rw [next_nil h.before] at called
    exact Or.inl ⟨rfl, (Except.ok.inj called).symm⟩
  | some step =>
    cases bs with
    | nil => cases hs
    | cons b rest =>
      have hwhole : state.mode = .base → charWidth b ≤ (b :: rest).length := by
        intro hm
        rcases h.whole with ht | hfull
        · exact ht.first_character.1
        · by_contra hcut
          rw [next_of_cut h.before hm (Nat.lt_of_not_le hcut) hfull] at called
          cases called
      rw [next_of_whole h.before hwhole hs] at called
      have hlen := length_le_of_step? hwhole hs
      refine Or.inr ⟨step, rfl, (Except.ok.inj called).symm, ?_, ?_⟩
      · rw [rest_of_step? hs]
        exact h.before.behind hlen
      · exact h.whole.imp_left fun ht => isText_rest ht hs

end LineScanner

/-- Nothing is cut off a line that fits. -/
theorem take_maxLength {line : String} (fits : line.utf8ByteSize < 2 ^ 32) :
    (bytes line).take LineBuffer.maxLength = bytes line := by
  refine List.take_of_length_le ?_
  rw [length_bytes]
  exact Nat.le_of_lt_succ fits

/-- The cursor at the start of a line that fits stands before its bytes. -/
theorem before_ofLine {line : String} (fits : line.utf8ByteSize < 2 ^ 32) :
    (⟨LineBuffer.ofLine line, 0⟩ : Cursor).Before (bytes line) := by
  rw [← take_maxLength fits]
  exact before_take line

/-- A line has its sentinel. -/
theorem cursor_of_before {buffer : LineBuffer} {bs : List Byte}
    (h : (⟨buffer, 0⟩ : Cursor).Before bs) : buffer.cursor = .ok ⟨buffer, 0⟩ := by
  have hlen : buffer.length = 0 + bs.length := h.length_eq
  have hend := (h.behind (Nat.le_refl _)).getElem?_storage
  rw [List.drop_length] at hend
  have hsentinel : buffer.storage[buffer.length]? = some 0 := by
    rw [hlen]
    exact hend
  exact if_pos hsentinel

/-- A line that fits is opened. -/
theorem ofLine_eq {line : String} (fits : line.utf8ByteSize < 2 ^ 32) (state : ScanState) :
    LineScanner.ofLine line state = .ok ⟨⟨LineBuffer.ofLine line, 0⟩, state⟩ := by
  unfold LineScanner.ofLine LineScanner.ofBuffer
  rw [cursor_of_before (before_ofLine fits)]
  rfl

/-- **The checked scanner has a result on every line.** -/
theorem tokenizeLine_eq {line : String} (fits : line.utf8ByteSize < 2 ^ 32) (state : ScanState) :
    tokenizeLine state line = .ok (tokens state (bytes line)) := by
  unfold tokenizeLine
  rw [ofLine_eq fits, ok_bind,
    LineScanner.collect_eq (isText_bytes line) state (before_ofLine fits), ok_bind]
  rfl

end OCamlHighlight
