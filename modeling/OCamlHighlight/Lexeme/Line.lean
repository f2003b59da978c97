/-
# The tokens of a line

A line is cut into tokens from left to right.  One step (`step?`) takes the
first token off the bytes that are left and says in which state the next one is
scanned; `tokens` repeats the step until the line ends.

Main facts:

* `step?` depends on nothing but the state and the bytes that are left;
* `tokens_eq` unfolds the loop by one step;
* the loop ends because every step shortens the bytes, except that a comment of
  depth zero is first left by a token of length zero (`weight_step?`).
-/
import OCamlHighlight.Lexeme.Rule
import OCamlHighlight.Lexeme.Extent
import OCamlHighlight.Token
import OCamlHighlight.Word

namespace OCamlHighlight

open Byte Extent

/-- One step of scanning: the token taken, the state after it, and the bytes
that are left. -/
structure Step where
  token : Token
  state : ScanState
  rest : List Byte
  deriving DecidableEq, Repr

namespace Step

/-- Takes `n` bytes off as one token. -/
def take (tag : Tag) (n : Nat) (state : ScanState) (bs : List Byte) : Step :=
  ⟨⟨tag, n⟩, state, bs.drop n⟩

/-- A string whose first `opening` bytes are its opening delimiter. -/
def string (state : ScanState) (opening : Nat) (bs : List Byte) : Step :=
  let (n, closed) := stringFrom opening (bs.drop opening)
  take .string n (if closed then state.toBase else state) bs

/-- A quoted string whose first `opening` bytes are its opening delimiter. -/
def rawString (state : ScanState) (opening : Nat) (bs : List Byte) : Step :=
  let (n, closed) := rawStringFrom opening (bs.drop opening)
  take .string n (if closed then state.toBase else state) bs

/-- A comment whose first `opening` bytes are its opening delimiter. -/
def comment (state : ScanState) (opening : Nat) (bs : List Byte) : Step :=
  let (n, depth) := commentFrom opening state.depth (bs.drop opening)
  take .comment n (state.withDepth depth) bs

/-- A token of code that begins with `b`. -/
def code (state : ScanState) (b : Byte) (rest : List Byte) : Step :=
  let bs := b :: rest
  match Rule.select state.atLineStart b rest.head? with
  | .separator => take .plain 2 { state with atLineStart := true } bs
  | .string => string (state.openLiteral .string) 1 bs
  | .rawString => rawString (state.openLiteral .rawString) 2 bs
  | .comment => comment state.openComment 2 bs
  | .constructor => take .constructor (1 + run isIdentifier rest) state.passCode bs
  | .word =>
    let n := 1 + run isIdentifier rest
    take (Word.tag (bs.take n)) n state.passCode bs
  | .number => take .number (number bs) state.passCode bs
  | .directive => take .atom (1 + run isWord rest) state.passCode bs
  | .operator => take .operator (1 + run isOperator rest) state.passCode bs
  | .other => take .plain (charWidth b) state bs

end Step

/-- The first token of the bytes that are left, if there are any. -/
def step? (state : ScanState) : List Byte → Option Step
  | [] => none
  | b :: rest =>
    let bs := b :: rest
    some <|
      if isBlank b then Step.take .whitespace (run isBlank bs) state bs
      else
        match state.mode with
        | .base => Step.code state b rest
        | .string => Step.string state 0 bs
        | .rawString => Step.rawString state 0 bs
        | .comment => Step.comment state 0 bs

@[simp] theorem step?_nil (state : ScanState) : step? state [] = none := rfl

/-! ## The loop ends -/

/-- Bounds the number of steps that are left: two for a byte, and one for a
comment, which may take nothing when its depth is zero. -/
def weight (state : ScanState) (bs : List Byte) : Nat :=
  2 * bs.length + state.mode.slack

/-- A step that takes a byte off the front lowers the weight. -/
theorem weight_take_lt (tag : Tag) {n : Nat} (hn : 0 < n) (state state' : ScanState) (b : Byte)
    (rest : List Byte) :
    weight (Step.take tag n state (b :: rest)).state (Step.take tag n state (b :: rest)).rest
      < weight state' (b :: rest) := by
  have hlen : ((b :: rest).drop n).length ≤ rest.length := by
    simp only [List.length_drop, List.length_cons]
    omega
  have hslack := state.mode.slack_le_one
  simp only [weight, Step.take, List.length_cons]
  omega

/-- Every step of code lowers the weight. -/
theorem weight_code_lt (state state' : ScanState) (b : Byte) (rest : List Byte) :
    weight (Step.code state b rest).state (Step.code state b rest).rest
      < weight state' (b :: rest) := by
  unfold Step.code
  dsimp only
  split
  · exact weight_take_lt _ (by omega) _ _ b rest
  · exact weight_take_lt _ (le_stringFrom 1 _) _ _ b rest
  · exact weight_take_lt _ (Nat.lt_of_lt_of_le (by omega) (le_rawStringFrom 2 _)) _ _ b rest
  · exact weight_take_lt _ (Nat.lt_of_lt_of_le (by omega) (le_commentFrom 2 _ _)) _ _ b rest
  · exact weight_take_lt _ (by omega) _ _ b rest
  · exact weight_take_lt _ (by omega) _ _ b rest
  · exact weight_take_lt _ (number_pos _) _ _ b rest
  · exact weight_take_lt _ (by omega) _ _ b rest
  · exact weight_take_lt _ (by omega) _ _ b rest
  · exact weight_take_lt _ (charWidth_pos b) _ _ b rest

/-- Every step in an open comment lowers the weight, and so does leaving a
comment of depth zero. -/
theorem weight_comment_lt (state : ScanState) (h : state.mode = .comment) (b : Byte)
    (rest : List Byte) :
    weight (Step.comment state 0 (b :: rest)).state (Step.comment state 0 (b :: rest)).rest
      < weight state (b :: rest) := by
  by_cases hd : state.depth = 0
  · simp [Step.comment, Step.take, weight, hd, commentFrom_zero, ScanState.withDepth, h,
      Mode.slack]
  · exact weight_take_lt _ (lt_commentFrom 0 _ hd b rest) _ _ b rest

/-- Every step lowers the weight. -/
theorem weight_step?_lt {state : ScanState} {bs : List Byte} {step : Step}
    (h : step? state bs = some step) : weight step.state step.rest < weight state bs := by
  cases bs with
  | nil => cases h
  | cons b rest =>
    simp only [step?, Option.some.injEq] at h
    subst h
    split
    case isTrue hb =>
      refine weight_take_lt _ ?_ _ _ b rest
      rw [run_cons, if_pos hb]
      omega
    case isFalse =>
      split
      · exact weight_code_lt state state b rest
      · exact weight_take_lt _ (lt_stringFrom 0 b rest) _ _ b rest
      · exact weight_take_lt _ (lt_rawStringFrom 0 b rest) _ _ b rest
      · exact weight_comment_lt state ‹_› b rest

/-! ## Tokens of a line -/

/-- Scans the bytes that are left, behind the tokens in `acc`. -/
def tokensFrom (acc : Array Token) (state : ScanState) (bs : List Byte) :
    Array Token × ScanState :=
  match _ : step? state bs with
  | none => (acc, state)
  | some step => tokensFrom (acc.push step.token) step.state step.rest
termination_by weight state bs
decreasing_by exact weight_step?_lt ‹_›

/-- The tokens of a line that is entered in the given state, and the state in
which it leaves the next line. -/
def tokens (state : ScanState) (bs : List Byte) : List Token × ScanState :=
  let (acc, final) := tokensFrom #[] state bs
  (acc.toList, final)

theorem tokensFrom_none {state : ScanState} {bs : List Byte} (h : step? state bs = none)
    (acc : Array Token) : tokensFrom acc state bs = (acc, state) := by
  rw [tokensFrom]
  split <;> simp_all

theorem tokensFrom_some {state : ScanState} {bs : List Byte} {step : Step}
    (h : step? state bs = some step) (acc : Array Token) :
    tokensFrom acc state bs = tokensFrom (acc.push step.token) step.state step.rest := by
  rw [tokensFrom]
  split <;> simp_all

/-- Tokens in front stay in front. -/
theorem tokensFrom_append (front acc : Array Token) (state : ScanState) (bs : List Byte) :
    tokensFrom (front ++ acc) state bs
      = (front ++ (tokensFrom acc state bs).1, (tokensFrom acc state bs).2) := by
  fun_induction tokensFrom acc state bs with
  | case1 acc state bs h => rw [tokensFrom_none h]
  | case2 acc state bs step h ih => rw [tokensFrom_some h, ← Array.append_push, ih]

/-- Scanning takes one step and goes on with what is left. -/
theorem tokens_eq (state : ScanState) (bs : List Byte) :
    tokens state bs =
      match step? state bs with
      | none => ([], state)
      | some step =>
        (step.token :: (tokens step.state step.rest).1, (tokens step.state step.rest).2) := by
  cases h : step? state bs with
  | none => simp [tokens, tokensFrom_none h]
  | some step =>
    have hfront := tokensFrom_append #[step.token] #[] step.state step.rest
    simp_all [tokens, tokensFrom_some h]

end OCamlHighlight
