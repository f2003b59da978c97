/-
# The literal that is open in a state

A step inside a string, a quoted string or a comment and a step of code that
opens one do the same: they scan the inside of the literal that is open in some
state.  `bodyFrom` is that scan for all three of them, and gives the state behind
it as well.

Main facts:

* `bodyFrom_append`: a scan over `front ++ back`, where `back` begins with a
  blank, is a scan over `front` and then one over `back`;
* `endsClean_bodyFrom`: a literal that stays open takes all bytes, and one that is
  closed ends behind its delimiter;
* `step?_cons`: every step takes blanks, a lexeme of code, or what is left of a
  literal.
-/
import OCamlHighlight.Lexeme.Line
import OCamlHighlight.Proofs.LiteralBody

namespace OCamlHighlight

open Byte Extent

/-! ## States inside a literal -/

namespace ScanState

/-- The state of a comment that is closed already. -/
def Hollow (state : ScanState) : Prop := state.mode = .comment ∧ state.depth = 0

instance (state : ScanState) : Decidable state.Hollow :=
  inferInstanceAs (Decidable (_ ∧ _))

/-- The next byte belongs to a literal. -/
def InLiteral (state : ScanState) : Prop := state.mode ≠ .base ∧ ¬ state.Hollow

theorem inLiteral_of_string {state : ScanState} (h : state.mode = .string) : state.InLiteral := by
  unfold InLiteral Hollow
  rw [h]
  exact ⟨by decide, fun hc => by cases hc.1⟩

theorem inLiteral_of_rawString {state : ScanState} (h : state.mode = .rawString) :
    state.InLiteral := by
  unfold InLiteral Hollow
  rw [h]
  exact ⟨by decide, fun hc => by cases hc.1⟩

theorem inLiteral_of_comment {state : ScanState} (h : state.mode = .comment)
    (hd : state.depth ≠ 0) : state.InLiteral := by
  refine ⟨?_, fun hc => hd hc.2⟩
  rw [h]
  decide

/-- Behind a literal that may have been closed there is code, or it goes on. -/
theorem InLiteral.close {state : ScanState} (h : state.InLiteral) (closed : Bool) :
    (if closed then state.toBase else state).mode = .base ∨
      (if closed then state.toBase else state).InLiteral := by
  cases closed with
  | true => exact Or.inl rfl
  | false => exact Or.inr h

/-- A literal that goes on was not closed. -/
theorem InLiteral.of_close {state : ScanState} {closed : Bool}
    (h : (if closed then state.toBase else state).InLiteral) : closed = false := by
  cases closed with
  | true => exact absurd rfl h.1
  | false => rfl

/-- A depth of zero leads to code. -/
theorem withDepth_zero_mode (state : ScanState) : (state.withDepth 0).mode = .base := rfl

theorem withDepth_mode (state : ScanState) {depth : Depth} (hd : depth ≠ 0) :
    (state.withDepth depth).mode = state.mode := if_neg hd

/-- The depth that a state has is no change. -/
theorem withDepth_self (state : ScanState) (hd : state.depth ≠ 0) :
    state.withDepth state.depth = state := by
  unfold withDepth
  rw [if_neg hd]

/-- Only the last depth counts, while the comment is open. -/
theorem withDepth_withDepth (state : ScanState) {depth : Depth} (hd : depth ≠ 0) (last : Depth) :
    (state.withDepth depth).withDepth last = state.withDepth last := by
  unfold withDepth
  rw [if_neg hd]

end ScanState

/-- The tag of what is inside a literal. -/
def Mode.bodyTag : Mode → Tag
  | comment => .comment
  | _ => .string

/-- A literal is a string or a comment. -/
theorem Mode.bodyTag_ne (mode : Mode) {tag : Tag} (notString : tag ≠ .string)
    (notComment : tag ≠ .comment) : mode.bodyTag ≠ tag := by
  cases mode with
  | comment => exact notComment.symm
  | base | string | rawString => exact notString.symm

/-! ## The scan -/

/-- The end of the literal that is open in a state, `n` bytes of it being behind,
and the state there.  In code there is nothing to scan. -/
def bodyFrom (n : Nat) (state : ScanState) (bs : List Byte) : Nat × ScanState :=
  match state.mode with
  | .base => (n, state)
  | .string =>
    let (m, closed) := stringFrom n bs
    (m, if closed then state.toBase else state)
  | .rawString =>
    let (m, closed) := rawStringFrom n bs
    (m, if closed then state.toBase else state)
  | .comment =>
    let (m, depth) := commentFrom n state.depth bs
    (m, state.withDepth depth)

section Modes

variable {state : ScanState} (n : Nat) (bs : List Byte)

theorem bodyFrom_base (h : state.mode = .base) : bodyFrom n state bs = (n, state) := by
  unfold bodyFrom
  rw [h]

theorem bodyFrom_string (h : state.mode = .string) :
    bodyFrom n state bs =
      ((stringFrom n bs).1, if (stringFrom n bs).2 then state.toBase else state) := by
  unfold bodyFrom
  rw [h]

theorem bodyFrom_rawString (h : state.mode = .rawString) :
    bodyFrom n state bs =
      ((rawStringFrom n bs).1, if (rawStringFrom n bs).2 then state.toBase else state) := by
  unfold bodyFrom
  rw [h]

theorem bodyFrom_comment (h : state.mode = .comment) :
    bodyFrom n state bs =
      ((commentFrom n state.depth bs).1, state.withDepth (commentFrom n state.depth bs).2) := by
  unfold bodyFrom
  rw [h]

/-- A hollow state takes nothing, and code follows. -/
theorem bodyFrom_hollow (h : state.Hollow) : bodyFrom n state bs = (n, state.withDepth 0) := by
  rw [bodyFrom_comment n bs h.1, h.2, commentFrom_zero]

/-- What is behind adds to the length only. -/
theorem bodyFrom_add (k : Nat) :
    bodyFrom (n + k) state bs = (n + (bodyFrom k state bs).1, (bodyFrom k state bs).2) := by
  cases h : state.mode with
  | base => rw [bodyFrom_base _ _ h, bodyFrom_base _ _ h]
  | string => rw [bodyFrom_string _ _ h, bodyFrom_string _ _ h, stringFrom_add]
  | rawString => rw [bodyFrom_rawString _ _ h, bodyFrom_rawString _ _ h, rawStringFrom_add]
  | comment => rw [bodyFrom_comment _ _ h, bodyFrom_comment _ _ h, commentFrom_add]

/-- Without bytes a literal stays as it is. -/
theorem bodyFrom_nil (h : state.InLiteral) : bodyFrom n state [] = (n, state) := by
  cases hm : state.mode with
  | base => exact absurd hm h.1
  | string =>
    rw [bodyFrom_string _ _ hm]
    rfl
  | rawString =>
    rw [bodyFrom_rawString _ _ hm]
    rfl
  | comment =>
    rw [bodyFrom_comment _ _ hm]
    show (n, state.withDepth state.depth) = (n, state)
    rw [state.withDepth_self fun hd => h.2 ⟨hm, hd⟩]

/-- A literal goes on over a blank. -/
theorem bodyFrom_blank (h : state.InLiteral) {b : Byte} (hb : isBlank b = true) :
    bodyFrom n state (b :: bs) = bodyFrom (n + 1) state bs := by
  cases hm : state.mode with
  | base => exact absurd hm h.1
  | string =>
    rw [bodyFrom_string _ _ hm, bodyFrom_string _ _ hm,
      stringFrom_other n bs (ne_of_isBlank hb rfl) (ne_of_isBlank hb rfl)]
  | rawString =>
    rw [bodyFrom_rawString _ _ hm, bodyFrom_rawString _ _ hm,
      rawStringFrom_other n fun hc => ne_of_isBlank hb rfl hc.1]
  | comment =>
    rw [bodyFrom_comment _ _ hm, bodyFrom_comment _ _ hm,
      commentFrom_other n (fun hd => h.2 ⟨hm, hd⟩) (fun hc => ne_of_isBlank hb rfl hc.1)
        fun hc => ne_of_isBlank hb rfl hc.1]

/-- A literal takes at least one of the bytes that are left. -/
theorem lt_bodyFrom (h : state.InLiteral) (b : Byte) : n < (bodyFrom n state (b :: bs)).1 := by
  cases hm : state.mode with
  | base => exact absurd hm h.1
  | string =>
    rw [bodyFrom_string _ _ hm]
    exact lt_stringFrom n b bs
  | rawString =>
    rw [bodyFrom_rawString _ _ hm]
    exact lt_rawStringFrom n b bs
  | comment =>
    rw [bodyFrom_comment _ _ hm]
    exact lt_commentFrom n _ (fun hd => h.2 ⟨hm, hd⟩) b bs

/-- Behind a scan there is code, or a literal that is still open. -/
theorem base_or_inLiteral_bodyFrom :
    (bodyFrom n state bs).2.mode = .base ∨ (bodyFrom n state bs).2.InLiteral := by
  cases hm : state.mode with
  | base =>
    rw [bodyFrom_base _ _ hm]
    exact Or.inl hm
  | string =>
    rw [bodyFrom_string _ _ hm]
    exact (ScanState.inLiteral_of_string hm).close (stringFrom n bs).2
  | rawString =>
    rw [bodyFrom_rawString _ _ hm]
    exact (ScanState.inLiteral_of_rawString hm).close (rawStringFrom n bs).2
  | comment =>
    rw [bodyFrom_comment _ _ hm]
    by_cases hd : (commentFrom n state.depth bs).2 = 0
    · exact Or.inl (by rw [hd]; exact state.withDepth_zero_mode)
    · exact Or.inr (ScanState.inLiteral_of_comment ((state.withDepth_mode hd).trans hm) hd)

/-- A literal that goes on is of the same kind. -/
theorem mode_bodyFrom (h : (bodyFrom n state bs).2.mode ≠ .base) :
    (bodyFrom n state bs).2.mode = state.mode := by
  have hclose : ∀ closed : Bool, (if closed then state.toBase else state).mode ≠ .base →
      (if closed then state.toBase else state).mode = state.mode := by
    intro closed hne
    cases closed with
    | true => exact absurd rfl hne
    | false => rfl
  cases hm : state.mode with
  | base => rw [bodyFrom_base _ _ hm, hm]
  | string =>
    rw [bodyFrom_string _ _ hm] at h ⊢
    exact (hclose _ h).trans hm
  | rawString =>
    rw [bodyFrom_rawString _ _ hm] at h ⊢
    exact (hclose _ h).trans hm
  | comment =>
    rw [bodyFrom_comment _ _ hm] at h ⊢
    exact (state.withDepth_mode fun hd => h (by rw [hd]; exact state.withDepth_zero_mode)).trans hm

/-- **The end of a literal.**  A literal that is open takes all bytes or ends
behind an ASCII byte, and only if it takes all of them it can stay open. -/
theorem endsClean_bodyFrom :
    ∃ m, (bodyFrom n state bs).1 = n + m ∧ (state.InLiteral → EndsClean bs m) ∧
      (¬ state.InLiteral → m = 0) ∧ ((bodyFrom n state bs).2.InLiteral → m = bs.length) := by
  cases hm : state.mode with
  | base =>
    rw [bodyFrom_base _ _ hm]
    exact ⟨0, rfl, fun h => absurd hm h.1, fun _ => rfl, fun h => absurd hm h.1⟩
  | string =>
    obtain ⟨m, hlen, hends, hopen⟩ := endsClean_stringFrom n bs
    rw [bodyFrom_string _ _ hm]
    exact ⟨m, hlen, fun _ => hends, fun h => absurd (ScanState.inLiteral_of_string hm) h,
      fun h => hopen h.of_close⟩
  | rawString =>
    obtain ⟨m, hlen, hends, hopen⟩ := endsClean_rawStringFrom n bs
    rw [bodyFrom_rawString _ _ hm]
    exact ⟨m, hlen, fun _ => hends, fun h => absurd (ScanState.inLiteral_of_rawString hm) h,
      fun h => hopen h.of_close⟩
  | comment =>
    obtain ⟨m, hlen, hends, hzero, hopen⟩ := endsClean_commentFrom n state.depth bs
    rw [bodyFrom_comment _ _ hm]
    refine ⟨m, hlen, fun h => hends fun hd => h.2 ⟨hm, hd⟩, ?_, fun h => hopen fun hd => ?_⟩
    · intro hin
      by_cases hd : state.depth = 0
      · exact hzero hd
      · exact absurd (ScanState.inLiteral_of_comment hm hd) hin
    · rw [hd] at h
      exact h.1 state.withDepth_zero_mode

end Modes

/-- **A literal over a blank.**  A scan of the bytes in front, and then of those
from the blank on in the state that it leaves, is a scan of all of them. -/
theorem bodyFrom_append (n : Nat) (state : ScanState) (front : List Byte) {back : List Byte}
    (hback : StartsBlank back) :
    bodyFrom n state (front ++ back)
      = bodyFrom (bodyFrom n state front).1 (bodyFrom n state front).2 back := by
  cases hm : state.mode with
  | base => rw [bodyFrom_base _ _ hm, bodyFrom_base _ _ hm, bodyFrom_base _ _ hm]
  | string =>
    rw [bodyFrom_string _ _ hm, bodyFrom_string _ _ hm, stringFrom_append n front hback]
    -- A string that is closed in `front` takes nothing of `back`.
    by_cases hclosed : (stringFrom n front).2 = true
    · rw [if_pos hclosed, if_pos hclosed, bodyFrom_base _ _ rfl]
    · rw [if_neg hclosed, if_neg hclosed, bodyFrom_string _ _ hm]
  | rawString =>
    rw [bodyFrom_rawString _ _ hm, bodyFrom_rawString _ _ hm, rawStringFrom_append n front hback]
    by_cases hclosed : (rawStringFrom n front).2 = true
    · rw [if_pos hclosed, if_pos hclosed, bodyFrom_base _ _ rfl]
    · rw [if_neg hclosed, if_neg hclosed, bodyFrom_rawString _ _ hm]
  | comment =>
    rw [bodyFrom_comment _ _ hm, bodyFrom_comment _ _ hm, commentFrom_append n _ front hback]
    -- The comment is closed in `front`, or goes on at the depth that it has there.
    by_cases hd : (commentFrom n state.depth front).2 = 0
    · rw [hd, bodyFrom_base _ _ state.withDepth_zero_mode, commentFrom_zero]
    · rw [bodyFrom_comment _ _ ((state.withDepth_mode hd).trans hm)]
      show _ = (_, (state.withDepth _).withDepth _)
      rw [state.withDepth_withDepth hd]
      rfl

/-! ## Steps -/

/-- The token of a literal whose first `opening` bytes open it; none do if it was
open before. -/
def Step.literal (opening : Nat) (state : ScanState) (bs : List Byte) : Step :=
  take state.mode.bodyTag (bodyFrom opening state (bs.drop opening)).1
    (bodyFrom opening state (bs.drop opening)).2 bs

theorem string_eq_literal {state : ScanState} (h : state.mode = .string) (opening : Nat)
    (bs : List Byte) : Step.string state opening bs = Step.literal opening state bs := by
  unfold Step.literal
  rw [bodyFrom_string _ _ h, h]
  rfl

theorem rawString_eq_literal {state : ScanState} (h : state.mode = .rawString) (opening : Nat)
    (bs : List Byte) : Step.rawString state opening bs = Step.literal opening state bs := by
  unfold Step.literal
  rw [bodyFrom_rawString _ _ h, h]
  rfl

theorem comment_eq_literal {state : ScanState} (h : state.mode = .comment) (opening : Nat)
    (bs : List Byte) : Step.comment state opening bs = Step.literal opening state bs := by
  unfold Step.literal
  rw [bodyFrom_comment _ _ h, h]
  rfl

/-- How many bytes open the literal of a rule, and the state behind them, if the
rule is one for a literal. -/
def Rule.opening (state : ScanState) : Rule → Option (Nat × ScanState)
  | string => some (1, state.openLiteral .string)
  | rawString => some (2, state.openLiteral .rawString)
  | comment => some (2, state.openComment)
  | _ => none

/-- The token of a rule that is not one for a literal. -/
def Rule.lexeme (state : ScanState) (b : Byte) (rest : List Byte) : Rule → Step
  | separator => Step.take .plain 2 { state with atLineStart := true } (b :: rest)
  | constructor => Step.take .constructor (1 + run isIdentifier rest) state.passCode (b :: rest)
  | word =>
    Step.take (Word.tag ((b :: rest).take (1 + run isIdentifier rest)))
      (1 + run isIdentifier rest) state.passCode (b :: rest)
  | number => Step.take .number (Extent.number (b :: rest)) state.passCode (b :: rest)
  | directive => Step.take .atom (1 + run isWord rest) state.passCode (b :: rest)
  | operator => Step.take .operator (1 + run isOperator rest) state.passCode (b :: rest)
  | _ => Step.take .plain (charWidth b) state (b :: rest)

/-- The literal that a byte belongs to: the one that is open, or one that opens
there. -/
def literalAt (state : ScanState) (b : Byte) (rest : List Byte) : Option (Nat × ScanState) :=
  if state.mode = .base then (Rule.select state.atLineStart b rest.head?).opening state
  else some (0, state)

/-- The first token of code is a literal or a lexeme, as its rule says. -/
theorem code_eq (state : ScanState) (b : Byte) (rest : List Byte) :
    Step.code state b rest =
      match (Rule.select state.atLineStart b rest.head?).opening state with
      | some (opening, inside) => Step.literal opening inside (b :: rest)
      | none => (Rule.select state.atLineStart b rest.head?).lexeme state b rest := by
  unfold Step.code
  cases Rule.select state.atLineStart b rest.head? <;> rfl

/-- **The shape of a step.**  A step takes blanks, the literal that its first byte
belongs to, or a lexeme of code. -/
theorem step?_cons (state : ScanState) (b : Byte) (rest : List Byte) :
    step? state (b :: rest) = some
      (if isBlank b then Step.take .whitespace (run isBlank (b :: rest)) state (b :: rest)
      else
        match literalAt state b rest with
        | some (opening, inside) => Step.literal opening inside (b :: rest)
        | none => (Rule.select state.atLineStart b rest.head?).lexeme state b rest) := by
  unfold step? literalAt
  by_cases hb : isBlank b = true
  · simp only [if_pos hb]
  · simp only [if_neg hb]
    -- A literal that is open already has nothing of its delimiter on this line.
    cases hm : state.mode with
    | base => exact congrArg some (code_eq state b rest)
    | string => exact congrArg some (string_eq_literal hm 0 (b :: rest))
    | rawString => exact congrArg some (rawString_eq_literal hm 0 (b :: rest))
    | comment => exact congrArg some (comment_eq_literal hm 0 (b :: rest))

end OCamlHighlight
