/-
# Where a quoted string ends

The scanner goes through a quoted string from pipe to pipe and looks at the byte behind each
of them, which may be the sentinel.  What this comes to is the first place of the body with a
pipe and a closing brace behind it.

* `RawStringBody.Ends` says this of a line and a place where the body begins.
* `ends_rawStringFrom` follows the scan one byte at a time: a byte at which no delimiter
  stands does not matter to the end (`Ends.before`).
* `Ends.of_brace` and `Ends.of_pipes` read off which pairs of bytes never close a quoted
  string, and which always do.
-/
import Mathlib.Order.Bounds.Basic
import OCamlHighlight.Proofs.StringEnd

namespace OCamlHighlight

open Byte Extent

namespace RawStringBody

/-! ## The first delimiter -/

/-- A pipe stands at a place, and a closing brace behind it. -/
def DelimiterAt (content : List Byte) (i : Nat) : Prop :=
  content[i]? = some pipe ∧ content[i + 1]? = some closeBrace

/-- Where a quoted string ends whose body begins at a place of a line, and whether it is
closed there: behind the first delimiter from this place on, or at the end of the line if
there is none. -/
inductive Ends (content : List Byte) (p : Nat) : Nat → Bool → Prop
  | closed {i : Nat} (first : IsLeast {i | p ≤ i ∧ DelimiterAt content i} i) :
    Ends content p (i + 2) true
  | stays (never : ∀ i, p ≤ i → ¬ DelimiterAt content i) : Ends content p content.length false

section Ends

variable {content : List Byte} {p stop : Nat} {closed : Bool}

/-- A body that begins one byte earlier ends at the same place, if no delimiter stands at
this byte. -/
theorem Ends.before (h : Ends content (p + 1) stop closed) (hp : ¬ DelimiterAt content p) :
    Ends content p stop closed := by
  -- From `p` on there are no other delimiters than from `p + 1` on.
  have hbehind : ∀ i, p ≤ i → DelimiterAt content i → p + 1 ≤ i := by
    intro i hle hi
    rcases Nat.eq_or_lt_of_le hle with rfl | hlt
    · exact absurd hi hp
    · exact hlt
  cases h with
  | @closed i first =>
    obtain ⟨⟨hle, hi⟩, hleast⟩ := first
    refine .closed ⟨⟨Nat.le_of_succ_le hle, hi⟩, ?_⟩
    rintro j ⟨hj, hdelimiter⟩
    exact hleast ⟨hbehind j hj hdelimiter, hdelimiter⟩
  | stays never => exact .stays fun i hle hi => never i (hbehind i hle hi) hi

/-- The two bytes behind some others are a delimiter or not. -/
theorem delimiterAt_length (front : List Byte) (b : Byte) (bs : List Byte) :
    DelimiterAt (front ++ b :: bs) front.length ↔ b = pipe ∧ bs.head? = some closeBrace := by
  unfold DelimiterAt
  rw [List.getElem?_append_right (Nat.le_refl _),
    List.getElem?_append_right (Nat.le_add_right _ 1), Nat.sub_self, Nat.add_sub_cancel_left,
    List.getElem?_cons_zero, List.getElem?_cons_succ, List.head?_eq_getElem?, Option.some.injEq]

/-- **The scan of a quoted string stops behind the first delimiter.** -/
theorem ends_rawStringFrom (front bs : List Byte) :
    Ends (front ++ bs) front.length (rawStringFrom front.length bs).1
      (rawStringFrom front.length bs).2 := by
  induction bs generalizing front with
  | nil =>
    rw [List.append_nil]
    refine .stays fun i hle hi => ?_
    exact absurd (List.getElem?_eq_some_iff.mp hi.1).1 (Nat.not_lt.mpr hle)
  | cons b bs ih =>
    by_cases hb : b = pipe ∧ bs.head? = some closeBrace
    · rw [rawStringFrom, if_pos hb]
      exact .closed ⟨⟨Nat.le_refl _, (delimiterAt_length front b bs).mpr hb⟩, fun j hj => hj.1⟩
    · have hrest := ih (front ++ [b])
      rw [List.append_assoc, List.length_append, List.length_singleton] at hrest
      rw [rawStringFrom_other _ hb]
      exact hrest.before fun hp => hb ((delimiterAt_length front b bs).mp hp)

/-- **A brace at the beginning of a body closes nothing**, whatever is in front of it: not
the pipe of the opening delimiter, and not a pipe at the end of the line above. -/
theorem Ends.of_brace (h : Ends content p stop true) (hp : content[p]? = some closeBrace) :
    p + 3 ≤ stop := by
  cases h with
  | @closed i first =>
    obtain ⟨⟨hle, hpipe, -⟩, -⟩ := first
    rcases Nat.eq_or_lt_of_le hle with rfl | hlt
    · rw [hp] at hpipe
      exact absurd (Option.some.inj hpipe) (by decide)
    · omega

/-- **Any run of pipes in front of a brace closes** the string, if nothing in front of it
does. -/
theorem Ends.of_pipes (h : Ends content p stop closed) {i k : Nat} (hi : p ≤ i)
    (hpipes : ∀ j ≤ k, content[i + j]? = some pipe)
    (hbrace : content[i + k + 1]? = some closeBrace) : closed = true ∧ stop ≤ i + k + 2 := by
  have hlast : DelimiterAt content (i + k) := ⟨hpipes k (Nat.le_refl k), hbrace⟩
  cases h with
  | closed first => exact ⟨rfl, Nat.add_le_add_right (first.2 ⟨by omega, hlast⟩) 2⟩
  | stays never => exact absurd hlast (never (i + k) (by omega))

end Ends

/-! ## The scanner -/

/-- Where the body of a quoted string begins that is scanned from a position on, and the
state in it: behind the delimiter that opens it, or, if the line was entered in a quoted
string, at a byte that is not blank. -/
inductive Begins (content : List Byte) (pos : Nat) (state : ScanState) : Nat → ScanState → Prop
  | opened (code : state.mode = .base) (opens : content[pos]? = some openBrace)
      (goesOn : content[pos + 1]? = some pipe) :
    Begins content pos state (pos + 2) (state.openLiteral .rawString)
  | entered (inRawString : state.mode = .rawString) {b : Byte} (here : content[pos]? = some b)
      (notBlank : isBlank b = false) : Begins content pos state pos state

/-- The body begins within the line. -/
theorem Begins.within {content : List Byte} {q p : Nat} {state inside : ScanState}
    (h : Begins content q state p inside) :
    q ≤ p ∧ p ≤ content.length ∧ inside.mode = .rawString := by
  cases h with
  | opened _ _ goesOn =>
    exact ⟨Nat.le_add_right q 2, (List.getElem?_eq_some_iff.mp goesOn).1, rfl⟩
  | entered inRawString here _ =>
    exact ⟨Nat.le_refl q, (List.getElem?_eq_some_iff.mp here).1.le, inRawString⟩

end RawStringBody

open RawStringBody

namespace LineScanner

/-- The scanner reads the body of a quoted string from any position of its line. -/
theorem rawString_of_within (line : String) {p : Nat}
    (within : p ≤ (LineBuffer.ofLine line).content.length) (scanner : LineScanner)
    (begun : scanner.cursor.pos ≤ p) {state : ScanState} (inside : state.mode = .rawString) :
    ∃ stop closed, RawStringBody.Ends (LineBuffer.ofLine line).content p stop closed ∧
      scanner.rawString ⟨LineBuffer.ofLine line, p⟩ state =
        .ok (⟨.string, stop - scanner.cursor.pos⟩, ⟨⟨LineBuffer.ofLine line, stop⟩,
          ⟨if closed then .base else .rawString, state.depth, state.atLineStart⟩⟩) := by
  have hends := ends_rawStringFrom ((LineBuffer.ofLine line).content.take p)
    ((LineBuffer.ofLine line).content.drop p)
  have hadd := rawStringFrom_add p 0 ((LineBuffer.ofLine line).content.drop p)
  rw [Nat.add_zero] at hadd
  rw [List.take_append_drop, List.length_take, Nat.min_eq_left within, hadd] at hends
  refine ⟨_, _, hends, ?_⟩
  unfold rawString
  rw [(before_drop line within).skipRawString, ok_bind]
  dsimp only
  rw [state.close_eq inside]
  exact if_pos (Nat.le_add_right_of_le begun)

/-- **A call that comes to a quoted string** reads its body from where it begins. -/
theorem next_of_begins_rawString {line : String} {q p : Nat} {state inside : ScanState}
    (h : RawStringBody.Begins (LineBuffer.ofLine line).content q state p inside) :
    next ⟨⟨LineBuffer.ofLine line, q⟩, state⟩
      = rawString ⟨⟨LineBuffer.ofLine line, q⟩, state⟩ ⟨LineBuffer.ofLine line, p⟩ inside := by
  cases h with
  | opened code opens goesOn =>
    have hat := before_byte opens
    have hpipe := before_byte goesOn
    rw [next_of_notBlank opens rfl, code]
    unfold LineScanner.code
    dsimp only
    rw [hat.current, ok_bind, hat.advanceChar (Nat.le_add_left 1 _), ok_bind, List.headD_cons,
      charWidth_of_ascii openBrace rfl]
    show (do let second ← Cursor.current ⟨LineBuffer.ofLine line, q + 1⟩; _) = _
    rw [hpipe.current, ok_bind, List.headD_cons]
    show (do rawString _ (← Cursor.advance ⟨LineBuffer.ofLine line, q + 1⟩) _) = _
    rw [hpipe.advance, ok_bind]
    rfl
  | entered inRawString here notBlank => rw [next_of_notBlank here notBlank, inRawString]

end LineScanner

/-- **Quoted strings end at the first delimiter.**  From any position of its line the scanner
goes behind the first pipe there that has a closing brace behind it, and code follows; if
there is none, it goes to the end of the line, and the quoted string goes on behind it.  What
a line has beyond the largest position is not in the buffer.  A call scans in this way behind
the delimiter that opens a quoted string, and in a quoted string at any byte that is not
blank.  A brace right where the body begins closes nothing, and any run of pipes in front of
a brace does. -/
theorem rawStrings_end_at_delimiter (line : String) :
    (∀ (p : Nat) (scanner : LineScanner) (state : ScanState),
      p ≤ (LineBuffer.ofLine line).content.length → scanner.cursor.pos ≤ p →
      state.mode = .rawString →
      ∃ stop closed, RawStringBody.Ends (LineBuffer.ofLine line).content p stop closed ∧
        scanner.rawString ⟨LineBuffer.ofLine line, p⟩ state =
          .ok (⟨.string, stop - scanner.cursor.pos⟩, ⟨⟨LineBuffer.ofLine line, stop⟩,
            ⟨if closed then .base else .rawString, state.depth, state.atLineStart⟩⟩)) ∧
    (∀ {q p : Nat} {state inside : ScanState},
      RawStringBody.Begins (LineBuffer.ofLine line).content q state p inside →
      (q ≤ p ∧ p ≤ (LineBuffer.ofLine line).content.length ∧ inside.mode = .rawString) ∧
        LineScanner.next ⟨⟨LineBuffer.ofLine line, q⟩, state⟩
          = LineScanner.rawString ⟨⟨LineBuffer.ofLine line, q⟩, state⟩
              ⟨LineBuffer.ofLine line, p⟩ inside) ∧
    ∀ {p stop : Nat} {closed : Bool},
      RawStringBody.Ends (LineBuffer.ofLine line).content p stop closed →
      ((LineBuffer.ofLine line).content[p]? = some closeBrace → closed = true → p + 3 ≤ stop) ∧
        ∀ i k, p ≤ i → (∀ j ≤ k, (LineBuffer.ofLine line).content[i + j]? = some pipe) →
          (LineBuffer.ofLine line).content[i + k + 1]? = some closeBrace →
          closed = true ∧ stop ≤ i + k + 2 := by
  refine ⟨fun p scanner state within begun inside => ?_, fun h => ?_, fun h => ⟨?_, ?_⟩⟩
  · exact scanner.rawString_of_within line within begun inside
  · exact ⟨h.within, LineScanner.next_of_begins_rawString h⟩
  · rintro hp rfl
    exact h.of_brace hp
  · intro i k hi hpipes hbrace
    exact h.of_pipes hi hpipes hbrace

/-- The pipe of the opening delimiter is followed by a brace, and a run of two pipes closes;
and a line that begins with a brace goes on in the quoted string. -/
theorem rawStrings_end_at_delimiter_opener :
    (RawStringBody.Ends (LineBuffer.ofLine "\x7b|\x7d ||\x7d x").content 2 7 true ∧
      LineScanner.next ⟨⟨LineBuffer.ofLine "\x7b|\x7d ||\x7d x", 0⟩, .start⟩
        = .ok (⟨.string, 7⟩, ⟨⟨LineBuffer.ofLine "\x7b|\x7d ||\x7d x", 7⟩, ⟨.base, 0, false⟩⟩)) ∧
      RawStringBody.Ends (LineBuffer.ofLine "\x7d λ|").content 0 5 false ∧
      LineScanner.next ⟨⟨LineBuffer.ofLine "\x7d λ|", 0⟩, ⟨.rawString, 0, false⟩⟩
        = .ok (⟨.string, 5⟩, ⟨⟨LineBuffer.ofLine "\x7d λ|", 5⟩, ⟨.rawString, 0, false⟩⟩) := by
  have hbegins :
      RawStringBody.Begins (LineBuffer.ofLine "\x7b|\x7d ||\x7d x").content 0 .start 2 _ :=
    .opened rfl (by decide +kernel) (by decide +kernel)
  have hgoes : RawStringBody.Begins (LineBuffer.ofLine "\x7d λ|").content 0 ⟨.rawString, 0, false⟩
      0 _ := .entered rfl (show _ = some closeBrace by decide +kernel) rfl
  obtain ⟨hscan, hnext, hends⟩ := rawStrings_end_at_delimiter "\x7b|\x7d ||\x7d x"
  obtain ⟨hscan', hnext', -⟩ := rawStrings_end_at_delimiter "\x7d λ|"
  obtain ⟨⟨hle, hin, hmode⟩, hcall⟩ := hnext hbegins
  obtain ⟨⟨hle', hin', hmode'⟩, hcall'⟩ := hnext' hgoes
  obtain ⟨stop, closed, h, hstring⟩ := hscan 2 ⟨⟨LineBuffer.ofLine _, 0⟩, .start⟩ _ hin hle hmode
  obtain ⟨stop', closed', h', hstring'⟩ :=
    hscan' 0 ⟨⟨LineBuffer.ofLine _, 0⟩, ⟨.rawString, 0, false⟩⟩ _ hin' hle' hmode'
  have hclosed : LineScanner.next ⟨⟨LineBuffer.ofLine "\x7b|\x7d ||\x7d x", 0⟩, .start⟩
      = .ok (⟨.string, 7⟩, ⟨⟨LineBuffer.ofLine "\x7b|\x7d ||\x7d x", 7⟩, ⟨.base, 0, false⟩⟩) := by
    decide +kernel
  have hopen : LineScanner.next ⟨⟨LineBuffer.ofLine "\x7d λ|", 0⟩, ⟨.rawString, 0, false⟩⟩
      = .ok (⟨.string, 5⟩, ⟨⟨LineBuffer.ofLine "\x7d λ|", 5⟩, ⟨.rawString, 0, false⟩⟩) := by
    decide +kernel
  rw [← hcall, hclosed] at hstring
  rw [← hcall', hopen] at hstring'
  simp only [Except.ok.injEq, Prod.mk.injEq, LineScanner.mk.injEq, Cursor.mk.injEq,
    ScanState.mk.injEq, true_and] at hstring hstring'
  obtain ⟨-, rfl, -⟩ := hstring
  obtain ⟨-, rfl, hstays, -⟩ := hstring'
  -- The two pipes from the fifth byte on close the string.
  obtain ⟨rfl, -⟩ := (hends h).2 4 1 (by decide) (by decide +kernel) (by decide +kernel)
  obtain rfl : closed' = false := by
    cases closed' with
    | true => cases hstays
    | false => rfl
  exact ⟨⟨h, hclosed⟩, h', hopen⟩

end OCamlHighlight
