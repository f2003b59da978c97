/-
# What a step takes off a line

Each step takes a token off the front of a line.  Here is what holds of every
such token, and by induction over the steps of all tokens of a line.

Main facts:

* `isCut_tokens`: tokens begin and end between two characters;
* `sum_length_tokens`: the tokens of a line are as long as the line;
* `filter_length_zero_tokens`: a token takes nothing only where a comment of
  depth zero is left, and that happens at most once on a line.
-/
import Mathlib
import OCamlHighlight.Proofs.OpenLiteral

namespace OCamlHighlight

open Byte Extent

/-! ## Lexemes end clean -/

/-- An ASCII byte and a run of ASCII bytes behind it. -/
theorem endsClean_run {p : Byte → Bool} (hp : ∀ x, p x = true → isHigh x = false) {b : Byte}
    (hb : isHigh b = false) (rest : List Byte) : EndsClean (b :: rest) (1 + run p rest) := by
  induction rest generalizing b with
  | nil => exact EndsClean.one hb []
  | cons c rest ih =>
    rw [run_cons]
    by_cases hc : p c = true
    · rw [if_pos hc, Nat.add_comm]
      exact (ih (hp c hc)).cons b
    · rw [if_neg hc]
      exact EndsClean.one hb (c :: rest)

/-- The same behind the first `n` bytes. -/
theorem endsClean_run_behind {p : Byte → Bool} (hp : ∀ x, p x = true → isHigh x = false)
    {bs : List Byte} {n : Nat} {b : Byte} (hget : bs[n]? = some b) (hb : isHigh b = false) :
    EndsClean bs (n + 1 + run p (bs.drop (n + 1))) := by
  obtain ⟨hn, heq⟩ := List.getElem?_eq_some_iff.mp hget
  have hends := endsClean_run hp hb (bs.drop (n + 1))
  rw [← heq, ← List.drop_eq_getElem_cons hn] at hends
  rw [Nat.add_assoc]
  exact hends.of_drop (Nat.le_of_lt hn)

theorem isHigh_of_isIdentifier (x : Byte) (h : isIdentifier x = true) : isHigh x = false :=
  not_isHigh x (Or.inr (Or.inl h))

theorem isHigh_of_isWord (x : Byte) (h : isWord x = true) : isHigh x = false :=
  isHigh_of_isIdentifier x (by rw [isIdentifier, h, Bool.true_or])

theorem isHigh_of_isExponentDigit : ∀ x : Byte, isExponentDigit x = true → isHigh x = false :=
  forall_of_forall_lt (by decide +kernel)

theorem isHigh_of_isSign : ∀ x : Byte, isSign x = true → isHigh x = false :=
  forall_of_forall_lt (by decide +kernel)

theorem endsClean_mantissa {b : Byte} (hb : isHigh b = false) (rest : List Byte) :
    EndsClean (b :: rest) (mantissa (b :: rest)) := by
  unfold mantissa
  dsimp only
  split
  case isTrue hdot => exact endsClean_run_behind isHigh_of_isWord hdot rfl
  case isFalse => exact endsClean_run isHigh_of_isWord hb rest

/-- A number ends clean, with an exponent and without. -/
theorem endsClean_number {b : Byte} (hb : isHigh b = false) (rest : List Byte) :
    EndsClean (b :: rest) (number (b :: rest)) := by
  unfold number
  dsimp only
  split
  case isTrue h =>
    rw [Bool.and_eq_true] at h
    obtain ⟨sign, hget, hsign⟩ := (Option.any_eq_true _ _).mp h.2
    exact endsClean_run_behind isHigh_of_isExponentDigit hget (isHigh_of_isSign sign hsign)
  case isFalse => exact endsClean_mantissa hb rest

/-! ## Rules -/

/-- A byte beyond ASCII has the last rule. -/
theorem Rule.select_of_isHigh {b : Byte} (hb : isHigh b = true) (atLineStart : Bool)
    (second : Option Byte) : select atLineStart b second = .other := by
  have hfirst : ∀ x : Byte, isHigh x = true → x ≠ semicolon ∧ x ≠ quote ∧ x ≠ openBrace ∧
      x ≠ openParen ∧ x ≠ backquote ∧ isUpper x = false ∧ isLower x = false ∧ x ≠ underscore ∧
        isDigit x = false ∧ x ≠ hash ∧ isOperatorStart x = false :=
    forall_of_forall_lt (by decide +kernel)
  have := hfirst b hb
  simp [select, this]

/-- Every rule but the last one begins with an ASCII byte. -/
theorem Rule.isHigh_of_select {atLineStart : Bool} {b : Byte} {second : Option Byte}
    (h : select atLineStart b second ≠ .other) : isHigh b = false := by
  rw [← Bool.not_eq_true]
  exact fun hb => h (select_of_isHigh hb atLineStart second)

/-- A second byte that belongs to no delimiter and no word decides like none. -/
theorem Rule.select_some (atLineStart : Bool) (first : Byte) {second : Byte}
    (h : second ≠ semicolon ∧ second ≠ pipe ∧ second ≠ star ∧ isWord second = false) :
    select atLineStart first (some second) = select atLineStart first none := by
  simp [select, h]

/-- The separator has two bytes. -/
theorem Rule.select_separator {atLineStart : Bool} {b : Byte} {second : Option Byte}
    (h : select atLineStart b second = .separator) : second = some semicolon := by
  unfold select at h
  grind

/-- The opening delimiter of a quoted string has two bytes. -/
theorem Rule.select_rawString {atLineStart : Bool} {b : Byte} {second : Option Byte}
    (h : select atLineStart b second = .rawString) : second = some pipe := by
  unfold select at h
  grind

/-- The opening delimiter of a comment has two bytes. -/
theorem Rule.select_comment {atLineStart : Bool} {b : Byte} {second : Option Byte}
    (h : select atLineStart b second = .comment) : second = some star := by
  unfold select at h
  grind

/-- A byte and an ASCII byte behind it. -/
theorem endsClean_two (b : Byte) {rest : List Byte} {c : Byte} (h : rest.head? = some c)
    (hc : isHigh c = false) : EndsClean (b :: rest) 2 := by
  obtain ⟨rest, rfl⟩ := List.head?_eq_some_iff.mp h
  exact (EndsClean.one hc rest).cons b

/-! ## What a step takes -/

/-- A byte of code begins a literal of one or two bytes, or none. -/
theorem literalAt_eq_some {state : ScanState} {b : Byte} {rest : List Byte} {opening : Nat}
    {inside : ScanState} (h : literalAt state b rest = some (opening, inside)) :
    (state.mode ≠ .base ∧ opening = 0 ∧ inside = state) ∨
      (0 < opening ∧ inside.InLiteral ∧ EndsClean (b :: rest) opening) := by
  unfold literalAt at h
  by_cases hm : state.mode = .base
  · rw [if_pos hm] at h
    right
    cases hrule : Rule.select state.atLineStart b rest.head? with
    | string =>
      rw [hrule] at h
      obtain ⟨rfl, rfl⟩ := Prod.mk.inj (Option.some.inj h)
      have hb := Rule.isHigh_of_select (by rw [hrule]; decide)
      exact ⟨by decide, ScanState.inLiteral_of_string rfl, EndsClean.one hb rest⟩
    | rawString =>
      rw [hrule] at h
      obtain ⟨rfl, rfl⟩ := Prod.mk.inj (Option.some.inj h)
      exact ⟨by decide, ScanState.inLiteral_of_rawString rfl,
        endsClean_two b (Rule.select_rawString hrule) rfl⟩
    | comment =>
      rw [hrule] at h
      obtain ⟨rfl, rfl⟩ := Prod.mk.inj (Option.some.inj h)
      exact ⟨by decide, ScanState.inLiteral_of_comment rfl (Depth.deeper_ne_zero _),
        endsClean_two b (Rule.select_comment hrule) rfl⟩
    | _ =>
      rw [hrule] at h
      cases h
  · rw [if_neg hm] at h
    obtain ⟨rfl, rfl⟩ := Prod.mk.inj (Option.some.inj h)
    exact Or.inl ⟨hm, rfl, rfl⟩

/-- A literal ends clean, unless it takes nothing. -/
theorem endsClean_literal {state : ScanState} {b : Byte} {rest : List Byte} {opening : Nat}
    {inside : ScanState} (h : literalAt state b rest = some (opening, inside)) :
    EndsClean (b :: rest) (Step.literal opening inside (b :: rest)).token.length ∨
      (Step.literal opening inside (b :: rest)).token.length = 0 := by
  obtain ⟨m, hlen, hends, hzero, -⟩ :=
    @endsClean_bodyFrom inside opening ((b :: rest).drop opening)
  show EndsClean (b :: rest) (bodyFrom opening inside ((b :: rest).drop opening)).1 ∨
    (bodyFrom opening inside ((b :: rest).drop opening)).1 = 0
  rw [hlen]
  by_cases hin : inside.InLiteral
  · refine Or.inl ((hends hin).of_drop ?_)
    rcases literalAt_eq_some h with ⟨-, rfl, -⟩ | ⟨-, -, hopening⟩
    · exact Nat.zero_le _
    · exact hopening.le
  · -- Only a hollow state takes nothing, and then there is no delimiter either.
    rcases literalAt_eq_some h with ⟨-, rfl, -⟩ | ⟨-, hin', -⟩
    · rw [hzero hin]
      exact Or.inr rfl
    · exact absurd hin' hin

/-- The end of a literal cuts text. -/
theorem isCut_literal {state : ScanState} {b : Byte} {rest : List Byte} {opening : Nat}
    {inside : ScanState} (ht : IsText (b :: rest))
    (h : literalAt state b rest = some (opening, inside)) :
    IsCut (b :: rest) (Step.literal opening inside (b :: rest)).token.length := by
  rcases endsClean_literal h with hends | hzero
  · exact ht.cut hends
  · rw [hzero]
    exact isCut_zero ht

/-- The lexeme of every rule but the last one ends clean. -/
theorem endsClean_lexeme {state : ScanState} {b : Byte} {rest : List Byte}
    (hother : Rule.select state.atLineStart b rest.head? ≠ .other) :
    EndsClean (b :: rest)
      ((Rule.select state.atLineStart b rest.head?).lexeme state b rest).token.length := by
  have hb := Rule.isHigh_of_select hother
  cases hrule : Rule.select state.atLineStart b rest.head? with
  | separator => exact endsClean_two b (Rule.select_separator hrule) rfl
  | number => exact endsClean_number hb rest
  | constructor | word => exact endsClean_run isHigh_of_isIdentifier hb rest
  | directive => exact endsClean_run isHigh_of_isWord hb rest
  | operator => exact endsClean_run (fun x hx => not_isHigh x (Or.inr (Or.inr hx))) hb rest
  | string | rawString | comment =>
    show EndsClean (b :: rest) (charWidth b)
    rw [charWidth_of_ascii b hb]
    exact EndsClean.one hb rest
  | other => exact absurd hrule hother

/-- Every lexeme takes a byte. -/
theorem lexeme_pos (rule : Rule) (state : ScanState) (b : Byte) (rest : List Byte) :
    0 < (rule.lexeme state b rest).token.length := by
  cases rule with
  | separator => exact Nat.succ_pos 1
  | number => exact number_pos _
  | constructor | word | directive | operator => exact Nat.add_pos_left Nat.one_pos _
  | string | rawString | comment | other => exact charWidth_pos b

/-- The length of a lexeme is positive and cuts text. -/
theorem isCut_lexeme {state : ScanState} {b : Byte} {rest : List Byte} (ht : IsText (b :: rest)) :
    let step := (Rule.select state.atLineStart b rest.head?).lexeme state b rest
    0 < step.token.length ∧ IsCut (b :: rest) step.token.length := by
  refine ⟨lexeme_pos _ state b rest, ?_⟩
  by_cases hother : Rule.select state.atLineStart b rest.head? = .other
  · rw [hother]
    exact ht.first_character
  · exact ht.cut (endsClean_lexeme hother)

/-- The tags of words. -/
theorem Word.tag_mem (word : List Byte) :
    Word.tag word ∈ [Tag.keyword, .operator, .builtin, .atom, .identifier] := by
  have htable : ∀ n, ∀ entry ∈ ofLength n,
      entry.1 ∈ [Tag.keyword, .operator, .builtin, .atom, .identifier] := by
    intro n
    unfold ofLength
    split <;> decide
  unfold tag
  cases hlookup : lookup word with
  | none => decide
  | some found =>
    unfold lookup at hlookup
    split at hlookup
    · obtain ⟨entry, hmem, hentry⟩ := List.exists_of_findSome?_eq_some hlookup
      rw [Option.ite_none_right_eq_some] at hentry
      rw [Option.getD_some, ← Option.some.inj hentry.2]
      exact htable _ entry hmem
    · cases hlookup

/-! ## Steps -/

section Steps

variable {state : ScanState} {b : Byte} {rest bs : List Byte} {step : Step}

/-- A step takes blanks, a literal or a lexeme. -/
inductive StepShape (state : ScanState) (b : Byte) (rest : List Byte) : Step → Prop
  | blanks (hb : isBlank b = true) :
    StepShape state b rest
      (Step.take .whitespace (run isBlank (b :: rest)) state (b :: rest))
  | literal (opening : Nat) (inside : ScanState) (hb : isBlank b = false)
    (hat : literalAt state b rest = some (opening, inside)) :
    StepShape state b rest (Step.literal opening inside (b :: rest))
  | lexeme (hb : isBlank b = false) (hat : literalAt state b rest = none) :
    StepShape state b rest ((Rule.select state.atLineStart b rest.head?).lexeme state b rest)

theorem shape_of_step? (h : step? state (b :: rest) = some step) :
    StepShape state b rest step := by
  rw [step?_cons] at h
  obtain rfl := Option.some.inj h
  by_cases hb : isBlank b = true
  · rw [if_pos hb]
    exact .blanks hb
  · rw [if_neg hb]
    rw [Bool.not_eq_true] at hb
    cases hat : literalAt state b rest with
    | some found => exact .literal found.1 found.2 hb hat
    | none => exact .lexeme hb hat

/-- A lexeme is one of code. -/
theorem base_of_literalAt_eq_none (h : literalAt state b rest = none) : state.mode = .base := by
  unfold literalAt at h
  split at h
  · assumption
  · cases h

/-- A step leaves what is behind its token. -/
theorem rest_of_step? (h : step? state bs = some step) : step.rest = bs.drop step.token.length := by
  cases bs with
  | nil => cases h
  | cons b rest =>
    cases shape_of_step? h with
    | blanks => rfl
    | literal => rfl
    | lexeme => cases Rule.select state.atLineStart b rest.head? <;> rfl

/-- **A step cuts text.** -/
theorem isCut_step? (ht : IsText bs) (h : step? state bs = some step) :
    IsCut bs step.token.length := by
  cases bs with
  | nil => cases h
  | cons b rest =>
    cases shape_of_step? h with
    | blanks hb =>
      show IsCut (b :: rest) (run isBlank (b :: rest))
      rw [run_cons, if_pos hb]
      exact ht.cut (endsClean_run (fun x hx => not_isHigh x (Or.inl hx))
        (not_isHigh b (Or.inl hb)) rest)
    | literal opening inside hb hat => exact isCut_literal ht hat
    | lexeme => exact (isCut_lexeme ht).2

/-- A token stays within its bytes, also where these are no text, as long as the first
character of code is whole. -/
theorem length_le_of_step? (hwhole : state.mode = .base → charWidth b ≤ (b :: rest).length)
    (h : step? state (b :: rest) = some step) : step.token.length ≤ (b :: rest).length := by
  cases shape_of_step? h with
  | blanks => exact run_le isBlank (b :: rest)
  | literal opening inside _ hat =>
    rcases endsClean_literal hat with hends | hzero
    · exact hends.le
    · rw [hzero]
      exact Nat.zero_le _
  | lexeme _ hat =>
    by_cases hother : Rule.select state.atLineStart b rest.head? = .other
    · rw [hother]
      exact hwhole (base_of_literalAt_eq_none hat)
    · exact (endsClean_lexeme hother).le

/-- What a step leaves is text. -/
theorem isText_rest (ht : IsText bs) (h : step? state bs = some step) : IsText step.rest := by
  rw [rest_of_step? h]
  exact (isCut_step? ht h).2.2

/-- No step takes the end of the line. -/
theorem tag_of_step? (h : step? state bs = some step) : step.token.tag ≠ .eol := by
  cases bs with
  | nil => cases h
  | cons b rest =>
    cases shape_of_step? h with
    | blanks =>
      show Tag.whitespace ≠ .eol
      decide
    | literal opening inside => exact inside.mode.bodyTag_ne (by decide) (by decide)
    | lexeme =>
      cases Rule.select state.atLineStart b rest.head? with
      | word => exact ne_of_mem_of_not_mem (Word.tag_mem _) (by decide)
      | _ => exact fun heq => by cases heq

/-- Blanks leave the state as it is. -/
theorem step?_of_isBlank (state : ScanState) (rest : List Byte) (hb : isBlank b = true) :
    step? state (b :: rest)
      = some (Step.take .whitespace (run isBlank (b :: rest)) state (b :: rest)) := by
  rw [step?_cons, if_pos hb]

/-- A hollow state is left by a token of length zero. -/
theorem step?_of_hollow (hh : state.Hollow) (rest : List Byte) (hb : isBlank b = false) :
    step? state (b :: rest) = some ⟨⟨.comment, 0⟩, state.withDepth 0, b :: rest⟩ := by
  have hm : state.mode ≠ .base := by
    rw [hh.1]
    decide
  rw [step?_cons, hb, if_neg Bool.false_ne_true]
  simp only [literalAt, if_neg hm, Step.literal, bodyFrom_hollow _ _ hh]
  rw [hh.1]
  rfl

/-- Behind a token that is not blank no comment has depth zero. -/
theorem not_hollow_of_step? (h : step? state (b :: rest) = some step) (hb : isBlank b = false) :
    ¬ step.state.Hollow := by
  cases shape_of_step? h with
  | blanks hblank =>
    rw [hb] at hblank
    cases hblank
  | literal opening inside =>
    rcases @base_or_inLiteral_bodyFrom inside opening ((b :: rest).drop opening) with hbase | hin
    · exact fun hh => by cases hbase.symm.trans hh.1
    · exact hin.2
  | lexeme _ hat =>
    have hmode : ∀ rule : Rule, (rule.lexeme state b rest).state.mode = state.mode := by
      intro rule
      cases rule <;> rfl
    rintro ⟨hcomment, -⟩
    rw [hmode, base_of_literalAt_eq_none hat] at hcomment
    cases hcomment

/-- Only a hollow state is left without taking a byte. -/
theorem length_pos_of_step? (ht : IsText (b :: rest)) (h : step? state (b :: rest) = some step)
    (hh : isBlank b = false → ¬ state.Hollow) : 0 < step.token.length := by
  cases shape_of_step? h with
  | blanks hb =>
    show 0 < run isBlank (b :: rest)
    rw [run_cons, if_pos hb]
    exact Nat.add_pos_left Nat.one_pos _
  | literal opening inside hb hat =>
    show 0 < (bodyFrom opening inside ((b :: rest).drop opening)).1
    rcases literalAt_eq_some hat with ⟨hm, rfl, rfl⟩ | ⟨hpos, -, -⟩
    · exact lt_bodyFrom 0 rest ⟨hm, hh hb⟩ b
    · obtain ⟨m, hlen, -⟩ := @endsClean_bodyFrom inside opening ((b :: rest).drop opening)
      omega
  | lexeme => exact (isCut_lexeme ht).1

end Steps

/-! ## Tokens of a line -/

theorem tokens_nil (state : ScanState) : tokens state [] = ([], state) := by
  rw [tokens_eq, step?_nil]

theorem tokens_of_step? {state : ScanState} {bs : List Byte} {step : Step}
    (h : step? state bs = some step) :
    tokens state bs =
      (step.token :: (tokens step.state step.rest).1, (tokens step.state step.rest).2) := by
  rw [tokens_eq, h]

/-- A step can be taken as long as there are bytes. -/
theorem eq_nil_of_step?_eq_none {state : ScanState} {bs : List Byte}
    (h : step? state bs = none) : bs = [] := by
  cases bs with
  | nil => rfl
  | cons b rest =>
    rw [step?_cons] at h
    cases h

/-- What holds at the end of a line, and before each step if it holds behind it,
holds for all text. -/
theorem scan_induction {P : (state : ScanState) → (bs : List Byte) → IsText bs → Prop}
    (nil : ∀ state, P state [] isText_nil)
    (cons : ∀ state bs step (ht : IsText bs) (h : step? state bs = some step),
      P step.state step.rest (isText_rest ht h) → P state bs ht)
    (state : ScanState) (bs : List Byte) (ht : IsText bs) : P state bs ht := by
  cases h : step? state bs with
  | none =>
    obtain rfl := eq_nil_of_step?_eq_none h
    exact nil state
  | some step =>
    exact cons state bs step ht h
      (scan_induction nil cons step.state step.rest (isText_rest ht h))
termination_by weight state bs
decreasing_by exact weight_step?_lt h

section Tokens

variable {bs : List Byte} (ht : IsText bs) (state : ScanState)

include ht

/-- **The tokens of a line are as long as the line.** -/
theorem sum_length_tokens : ((tokens state bs).1.map Token.length).sum = bs.length := by
  induction state, bs, ht using scan_induction with
  | nil state =>
    rw [tokens_nil]
    rfl
  | cons state bs step ht h ih =>
    have hlen := (isCut_step? ht h).1
    rw [tokens_of_step? h, List.map_cons, List.sum_cons, ih, rest_of_step? h, List.length_drop]
    omega

/-- **Tokens begin and end between two characters.** -/
theorem isCut_tokens {front : List Token} (hfront : front <+: (tokens state bs).1) :
    IsCut bs (front.map Token.length).sum := by
  induction state, bs, ht using scan_induction generalizing front with
  | nil state =>
    rw [tokens_nil, List.prefix_nil] at hfront
    rw [hfront]
    exact isCut_zero isText_nil
  | cons state bs step ht h ih =>
    rw [tokens_of_step? h, List.prefix_cons_iff] at hfront
    rcases hfront with rfl | ⟨front, rfl, hfront⟩
    · exact isCut_zero ht
    · have hrest := ih hfront
      rw [rest_of_step? h] at hrest
      rw [List.map_cons, List.sum_cons]
      exact (isCut_step? ht h).add hrest

/-- No token of a line has the tag of its end. -/
theorem tag_of_mem_tokens {token : Token} (hmem : token ∈ (tokens state bs).1) :
    token.tag ≠ .eol := by
  induction state, bs, ht using scan_induction with
  | nil state =>
    rw [tokens_nil] at hmem
    cases hmem
  | cons state bs step ht h ih =>
    rw [tokens_of_step? h] at hmem
    rcases List.mem_cons.mp hmem with rfl | hmem
    · exact tag_of_step? h
    · exact ih hmem

omit ht in
/-- Blanks in front do not matter to whether there is another byte. -/
theorem exists_not_isBlank_drop (bs : List Byte) :
    (∃ x ∈ bs.drop (run isBlank bs), isBlank x = false) ↔ ∃ x ∈ bs, isBlank x = false := by
  induction bs with
  | nil => exact Iff.rfl
  | cons b bs ih =>
    rw [run_cons]
    by_cases hb : isBlank b = true
    · rw [if_pos hb, Nat.add_comm, List.drop_succ_cons, ih]
      simp [hb]
    · rw [if_neg hb]
      exact Iff.rfl

/-- **Empty tokens.**  The first byte that is not blank is taken behind an empty
token if the line was entered in a comment of depth zero.  There are no other
empty tokens. -/
theorem filter_length_zero_tokens :
    (tokens state bs).1.filter (·.length == 0) =
      if state.Hollow ∧ ∃ x ∈ bs, isBlank x = false then [⟨.comment, 0⟩] else [] := by
  induction state, bs, ht using scan_induction with
  | nil state =>
    rw [tokens_nil]
    simp
  | cons state bs step ht h ih =>
    cases bs with
    | nil => cases h
    | cons b rest =>
      rw [tokens_of_step? h]
      by_cases hb : isBlank b = true
      · -- Blanks take nothing away from either side.
        have hpos := length_pos_of_step? ht h (by simp [hb])
        rw [step?_of_isBlank state rest hb] at h
        obtain rfl := Option.some.inj h
        rw [List.filter_cons_of_neg (by simpa using Nat.ne_of_gt hpos), ih]
        simp only [Step.take, exists_not_isBlank_drop]
      · have hnext := not_hollow_of_step? h (by simpa using hb)
        rw [if_neg fun hc => hnext hc.1] at ih
        rw [Bool.not_eq_true] at hb
        -- Behind this token no state is hollow, so the others are not empty.
        by_cases hh : state.Hollow
        · rw [step?_of_hollow hh rest hb] at h
          obtain rfl := Option.some.inj h
          rw [if_pos ⟨hh, b, List.mem_cons_self, hb⟩, List.filter_cons_of_pos rfl, ih]
        · have hpos := length_pos_of_step? ht h fun _ => hh
          rw [if_neg fun hc => hh hc.1,
            List.filter_cons_of_neg (by simpa using Nat.ne_of_gt hpos), ih]

end Tokens

end OCamlHighlight
